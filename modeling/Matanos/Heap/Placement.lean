import Matanos.Lib.Stacked
import Matanos.Heap.Bounds

/-!
`kmalloc_int` of `cpu/kheap.c` while there is no heap, which moves `placement_address` up.

* `KmallocCall`: the arguments of a call, with those of `kmalloc`, `kmalloc_a`, `kmalloc_p` and
  `kmalloc_ap`;
* `placementKmalloc`: the branch; `paging_kmallocInt`: it is the one that paging uses;
* `serve`: the calls of a sequence, with what each returns, stores and leaves;
* `KmallocCall.place`, `lastAddress`: where a block goes, and the address behind the last one, over the
  integers; `serve_stacked`: the blocks go there as long as that address does not wrap;
* `placement_in_order_iff`: when the blocks are in order.
-/

namespace Matanos

open Lib

/-- The arguments of `kmalloc_int`; `phys` says whether there is a pointer for the physical address. -/
structure KmallocCall where
  sz : ℕ
  align : ℤ
  phys : Bool

namespace KmallocCall

/-- `kmalloc_a`. -/
def kmallocA (sz : ℕ) : KmallocCall := ⟨sz, 1, false⟩

/-- `kmalloc_p`. -/
def kmallocP (sz : ℕ) : KmallocCall := ⟨sz, 0, true⟩

/-- `kmalloc_ap`. -/
def kmallocAp (sz : ℕ) : KmallocCall := ⟨sz, 1, true⟩

/-- `kmalloc`. -/
def kmalloc (sz : ℕ) : KmallocCall := ⟨sz, 0, false⟩

end KmallocCall

/-- The branch of `kmalloc_int` for `kheap == 0`: the address that is returned, `*phys` if it is stored,
and the new `placement_address`. -/
def placementKmalloc (placementAddress : ℕ) (c : KmallocCall) : ℕ × Option ℕ × ℕ :=
  let placementAddress :=
    if c.align = 1 ∧ placementAddress &&& 0xFFFFF000 ≠ 0 then
      add32 (placementAddress &&& 0xFFFFF000) 0x1000
    else placementAddress
  let phys := if c.phys then some placementAddress else none
  let tmp := placementAddress
  (tmp, phys, add32 placementAddress c.sz)

variable {p : ℕ} {c : KmallocCall} {cs : List KmallocCall}

/-- The branch as paging uses it. -/
lemma paging_kmallocInt (s : Paging) {sz : ℕ} {align : Bool}
    (hc : c = if align then .kmallocA sz else .kmalloc sz) :
    s.kmallocInt sz align = ((placementKmalloc s.placement c).1,
      { s with placement := (placementKmalloc s.placement c).2.2 }) := by
  subst hc
  cases align with
  | false => rfl
  | true =>
      simp only [Paging.kmallocInt, placementKmalloc, KmallocCall.kmallocA, if_true, true_and, add32]

/-- A call with `placement_address` before and after it, the address it returned and `*phys`. -/
structure Served where
  call : KmallocCall
  before : ℕ
  addr : ℕ
  phys : Option ℕ
  after : ℕ

/-- The end of the block, over the integers. -/
def Served.stop (x : Served) : ℕ := x.addr + x.call.sz

/-- The calls of a sequence, one after the other. -/
def serve (placementAddress : ℕ) : List KmallocCall → List Served
  | [] => []
  | c :: cs =>
      let (addr, phys, after) := placementKmalloc placementAddress c
      ⟨c, placementAddress, addr, phys, after⟩ :: serve after cs

/-- The blocks are in order and do not overlap, each between the values of `placement_address` before and
after its call, at a page boundary where that was asked for, and `*phys` is its address. -/
structure InOrder (served : List Served) : Prop where
  rising : served.Pairwise fun x y => x.stop ≤ y.addr
  disjoint : served.Pairwise fun x y => Disjoint (Set.Ico x.addr x.stop) (Set.Ico y.addr y.stop)
  inside : ∀ x ∈ served, x.before ≤ x.addr ∧ x.stop ≤ x.after
  aligned : ∀ x ∈ served, x.call.align = 1 → x.addr % 0x1000 = 0
  stored : ∀ x ∈ served, x.phys = if x.call.phys then some x.addr else none

/-! ### Over the integers -/

/-- Where the block of a call goes. -/
def KmallocCall.place (c : KmallocCall) (p : ℕ) : ℕ := if c.align = 1 then nextPage p else p

/-- The address behind the block of the last call. -/
def lastAddress : ℕ → List KmallocCall → ℕ
  | p, [] => p
  | p, c :: cs => lastAddress (c.place p + c.sz) cs

lemma KmallocCall.le_place : p ≤ c.place p := by
  rw [KmallocCall.place, nextPage]
  split_ifs <;> omega

lemma le_lastAddress : p ≤ lastAddress p cs := by
  induction cs generalizing p with
  | nil => exact le_rfl
  | cons c cs ih => exact ((c.le_place).trans (Nat.le_add_right _ c.sz)).trans ih

/-- **One call** from a page above the first on. -/
lemma placementKmalloc_eq (hlo : 0x1000 ≤ p) (hp : p < 2 ^ 32) :
    placementKmalloc p c =
      (c.place p % 2 ^ 32, if c.phys then some (c.place p % 2 ^ 32) else none,
        (c.place p % 2 ^ 32 + c.sz) % 2 ^ 32) := by
  have hmask : p &&& 0xFFFFF000 = p / 0x1000 * 0x1000 := and_highMask (n := p) (m := 20) (k := 12) hp
  have hpage : nextPage p = p / 0x1000 * 0x1000 + 0x1000 := Nat.succ_mul _ _
  simp only [placementKmalloc, KmallocCall.place, hmask, hpage]
  by_cases halign : c.align = 1
  · rw [if_pos ⟨halign, by omega⟩, if_pos halign]
    rfl
  · rw [if_neg (fun h => halign h.1), if_neg halign, Nat.mod_eq_of_lt hp]
    rfl

/-- A call that does not wrap. -/
lemma placementKmalloc_of_lt (hlo : 0x1000 ≤ p) (hhi : c.place p + c.sz < 2 ^ 32) :
    placementKmalloc p c =
      (c.place p, if c.phys then some (c.place p) else none, c.place p + c.sz) := by
  have hle : p ≤ c.place p := c.le_place
  rw [placementKmalloc_eq hlo (by omega), Nat.mod_eq_of_lt (by omega), Nat.mod_eq_of_lt (by omega)]

/-! ### Sequences of calls -/

/-- **The blocks go one above the other**, where they go over the integers. -/
lemma serve_stacked (hlo : 0x1000 ≤ p) (hhi : lastAddress p cs < 2 ^ 32) :
    Stacked Served.addr Served.stop p (serve p cs) (lastAddress p cs) ∧
      ∀ x ∈ serve p cs, x.addr = x.call.place x.before ∧ x.after = x.stop ∧
        x.phys = if x.call.phys then some x.addr else none := by
  induction cs generalizing p with
  | nil => exact ⟨le_rfl, by simp [serve]⟩
  | cons c cs ih =>
      have hle : p ≤ c.place p := c.le_place
      have hrest : c.place p + c.sz ≤ lastAddress (c.place p + c.sz) cs := le_lastAddress
      rw [lastAddress] at hhi ⊢
      obtain ⟨hstacked, hall⟩ := ih (p := c.place p + c.sz) (by omega) hhi
      simp only [serve, placementKmalloc_of_lt hlo (hrest.trans_lt hhi)]
      exact ⟨⟨hle, Nat.le_add_right _ _, hstacked⟩, List.forall_mem_cons.mpr ⟨⟨rfl, rfl, rfl⟩, hall⟩⟩

/-- Then they are in order. -/
lemma inOrder_of_lt (hlo : 0x1000 ≤ p) (hhi : lastAddress p cs < 2 ^ 32) : InOrder (serve p cs) := by
  obtain ⟨hstacked, hall⟩ := serve_stacked hlo hhi
  refine ⟨hstacked.pairwise, hstacked.disjoint, fun x hx => ?_, fun x hx halign => ?_, fun x hx => ?_⟩
  · obtain ⟨haddr, hafter, -⟩ := hall x hx
    exact ⟨haddr ▸ x.call.le_place, hafter.ge⟩
  · rw [(hall x hx).1, KmallocCall.place, if_pos halign]
    exact Nat.mul_mod_left _ _
  · exact (hall x hx).2.2

/-- **Blocks in order have not wrapped.** -/
lemma InOrder.lastAddress_lt (h : InOrder (serve p cs)) (hlo : 0x1000 ≤ p) (hp : p < 2 ^ 32) :
    lastAddress p cs < 2 ^ 32 := by
  induction cs generalizing p with
  | nil => exact hp
  | cons c cs ih =>
      have hle : p ≤ c.place p := c.le_place
      have hplace : c.place p ≤ 2 ^ 32 := by
        rw [KmallocCall.place, nextPage]
        split_ifs <;> omega
      simp only [serve, placementKmalloc_eq hlo hp] at h
      obtain ⟨hbefore, hafter⟩ := h.inside _ List.mem_cons_self
      simp only [Served.stop] at hbefore hafter
      -- a page boundary at the end of memory would be 0, below `placement_address`
      have hlt : c.place p < 2 ^ 32 := by omega
      have hend : c.place p + c.sz < 2 ^ 32 := by
        rw [Nat.mod_eq_of_lt hlt] at hafter
        omega
      rw [Nat.mod_eq_of_lt hlt, Nat.mod_eq_of_lt hend] at h
      refine ih ⟨(List.pairwise_cons.mp h.rising).2, (List.pairwise_cons.mp h.disjoint).2,
        fun x hx => h.inside x (List.mem_cons_of_mem _ hx),
        fun x hx => h.aligned x (List.mem_cons_of_mem _ hx),
        fun x hx => h.stored x (List.mem_cons_of_mem _ hx)⟩ ?_ ?_
      · omega
      · exact hend

/-- While there is no heap, the blocks of any sequence of calls from a `placement_address` of 0x1000 or
more are in order, if and only if the address behind the last one is below `2 ^ 32`. -/
theorem placement_in_order_iff {p : ℕ} (hlo : 0x1000 ≤ p) (hp : p < 2 ^ 32) (cs : List KmallocCall) :
    InOrder (serve p cs) ↔ lastAddress p cs < 2 ^ 32 :=
  ⟨fun h => h.lastAddress_lt hlo hp, inOrder_of_lt hlo⟩

/-- The bitset, the directory and a table of the boot, and a small block. -/
theorem placement_in_order_boot :
    InOrder (serve 0x100000 [.kmalloc 512, .kmallocA 0x2004, .kmallocAp 0x1000, .kmallocP 13]) :=
  (placement_in_order_iff (by decide) (by decide) _).mpr (by decide)

/-- The last page, and then nothing: the sizes add up to `2 ^ 32`, and the second block is at 0. -/
theorem placement_reaches_end :
    lastAddress 0xFFFFF000 [.kmalloc 0x1000, .kmalloc 0] ≤ 2 ^ 32 ∧
      ¬ InOrder (serve 0xFFFFF000 [.kmalloc 0x1000, .kmalloc 0]) := by
  refine ⟨by decide, fun h => ?_⟩
  have hrising := (List.pairwise_cons.mp h.rising).1
  exact absurd (hrising _ (List.mem_singleton_self _)) (by decide)

end Matanos
