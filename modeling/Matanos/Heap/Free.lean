import Matanos.Heap.Growth

/-!
`free`: the block becomes a hole, which is merged with its neighbours, trimmed at the end of the
heap and put in the index.

* `Shaped`: a heap of valid chunks, with an index of its own;
* `leftHole_eq`, `rightHole_eq`: what the two tests find;
* `mark`, `unifyLeft_eq`, `unifyRight_none`, `unifyRight_hole`: what the parts make of the chunks;
* `Neighbours`: a block with the holes next to it; `Neighbours.free_eq`: `free` up to the part that
  contracts the heap, with `Merged`: what is known there;
* `free_bogus`: the first block, when what is in front of the heap looks like the footer of a hole.
-/

namespace Matanos

open Lib

variable {π : Type*} {s s' : Kheap π} {l r cs es : List Chunk} {as bs : List ℕ}

/-! ### Heaps whose index is not that of the chunks -/

/-- The heap is tiled by valid chunks, and the entries of its index are `as`. -/
structure Shaped (s : Kheap π) (cs : List Chunk) (as : List ℕ) : Prop where
  placed : s.heap.Placed
  tiled : Tiled s.heap.startAddress cs s.heap.endAddress
  valid : ∀ c ∈ cs, c.Valid s.mem s.heap.endAddress
  index : Indexed s.heap s.mem as

lemma Laid.shaped (h : Laid s cs) : Shaped s cs (holes cs) :=
  ⟨h.placed, h.tiled, h.valid, h.index⟩

lemma Shaped.laid (h : Shaped s cs as) (hp : as.Perm (holes cs)) : Laid s cs :=
  ⟨h.placed, h.tiled, h.valid, h.index.of_perm hp⟩

lemma Shaped.of_perm (h : Shaped s cs as) (hp : as.Perm bs) : Shaped s cs bs :=
  ⟨h.placed, h.tiled, h.valid, h.index.of_perm hp⟩

section Shaped

variable {a b : ℕ} {c d : Chunk}

/-- What is known around a chunk. -/
lemma Shaped.around (h : Shaped s (l ++ c :: r) as) :
    Tiled s.heap.startAddress l c.addr ∧ 20 ≤ c.size ∧
      Tiled (c.addr + c.size) r s.heap.endAddress ∧ s.heap.startAddress ≤ c.addr ∧
      c.addr + c.size ≤ s.heap.endAddress ∧ c.Valid s.mem s.heap.endAddress := by
  obtain ⟨hl, hn, hr, hlo, hhi⟩ := h.tiled.around
  exact ⟨hl, hn, hr, hlo, hhi, h.valid c (by simp)⟩

/-- Chunks between two addresses are replaced by valid ones. -/
lemma Shaped.replace (h : Shaped s cs as) (hw : Within s s' a b)
    (hl : Tiled s.heap.startAddress l a) (hr : Tiled b r s.heap.endAddress)
    (hkeep : ∀ c ∈ l ++ r, c ∈ cs) (ht : Tiled a es b)
    (hv : ∀ d ∈ es, d.Valid s'.mem s.heap.endAddress) (hx : Indexed s'.heap s'.mem bs) :
    Shaped s' (l ++ (es ++ r)) bs := by
  refine ⟨hw.placed h.placed, ?_, ?_, hx⟩
  · rw [hw.start, hw.stop]
    exact tiles_append.mpr ⟨_, hl, tiles_append.mpr ⟨_, ht, hr⟩⟩
  · rw [hw.stop]
    exact hw.valid_around h.placed hl ht.le hr (fun d hd => h.valid d (hkeep d hd)) hv

/-- A change of memory in the heap keeps the index. -/
lemma Shaped.index_mem (h : Shaped s cs as) {m : Bytes}
    (hm : ∀ x < s.heap.startAddress, m x = s.mem x) : Indexed s.heap m as :=
  h.index.of_mem h.placed hm

/-- Such a change keeps the entries in their order. -/
lemma Shaped.slots_mem (h : Shaped s cs as) {s₁ : Kheap π} (hheap : s₁.heap = s.heap)
    (hm : ∀ x < s.heap.startAddress, s₁.mem x = s.mem x) : s₁.slots = s.slots := by
  have hfits := h.index.fits
  have harray := h.placed.index
  change s₁.heap.slots s₁.mem = s.heap.slots s.mem
  rw [hheap]
  exact Heap.slots_congr fun x _ hx => hm x (by omega)

/-! ### The neighbours -/

/-- What is to the left of a chunk is a hole if the chunk there is one. -/
lemma Shaped.leftHole_eq (h : Shaped s (l ++ c :: d :: r) as) :
    Kheap.leftHole s.mem d.addr = if c.hole = true then some c.addr else none := by
  obtain ⟨-, hn, htiled, -, -, hv⟩ := h.around
  obtain ⟨hd, hdn, hrest⟩ := htiled
  have hle := hrest.le
  have htop := h.placed.top
  have hfoot : sub32 d.addr 8 = c.addr + c.size - 8 := by
    rw [hd, sub32_of_le (by omega) (by omega)]
  have hheader : c.addr + c.size - 8 + 4 = c.addr + c.size - 4 := by omega
  have hmagic := hv.footerMagic (Or.inr (by omega))
  have hname := hv.footer (Or.inr (by omega))
  have hhole := hv.isHole
  rw [Kheap.leftHole, hfoot]
  simp only [hheader, hmagic, hname, hhole, true_and]
  cases c.hole <;> simp

/-- What is to the right of a chunk is a hole if the chunk there is one. -/
lemma Shaped.rightHole_eq (h : Shaped s (l ++ c :: d :: r) as) :
    Kheap.rightHole s.mem (c.addr + c.size - 8) = if d.hole = true then some d.addr else none := by
  obtain ⟨-, hn, htiled, -, -, -⟩ := h.around
  obtain ⟨hd, hdn, hrest⟩ := htiled
  have hle := hrest.le
  have htop := h.placed.top
  have hv := h.valid d (by simp)
  have hhead : add32 (c.addr + c.size - 8) 8 = d.addr := by
    rw [add32_of_lt (by omega)]
    omega
  have hmagic := hv.magic
  have hhole := hv.isHole
  rw [Kheap.rightHole, hhead]
  simp only [hmagic, hhole, true_and]
  cases d.hole <;> simp

end Shaped

/-! ### The parts of `free` -/

/-- A hole of `n` bytes at `a`, where 0 stands for none. -/
def holeAt (a n : ℕ) : List Chunk := if n = 0 then [] else [⟨a, n, true⟩]

lemma holeAt_zero {a : ℕ} : holeAt a 0 = [] := rfl

lemma holeAt_of_ne {a n : ℕ} (h : n ≠ 0) : holeAt a n = [⟨a, n, true⟩] := if_neg h

section Parts

variable {P : Pager π} {a b n m k hd footer : ℕ} {doAdd : Bool}

/-- The block is marked as a hole that is not in the index. -/
lemma Shaped.mark (h : Shaped s (l ++ ⟨a, n, false⟩ :: r) as) {s₁ : Kheap π}
    (hs₁ : s₁ = { s with mem := write8 s.mem (a + 4) 1 }) :
    Shaped s₁ (l ++ ⟨a, n, true⟩ :: r) as ∧ Within s s₁ a (a + n) := by
  obtain ⟨hl, hn, hr, hlo, hhi, hv⟩ := h.around
  simp only at hl hn hr hlo hhi
  have hw : Within s s₁ a (a + n) := by
    rw [hs₁]
    exact within_mem fun x hx => write8_byte (by omega)
  have hmem : s₁.mem = write8 s.mem (a + 4) 1 := by rw [hs₁]
  have hheap : s₁.heap = s.heap := by rw [hs₁]
  have ht : Tiled a [⟨a, n, true⟩] (a + n) := ⟨rfl, hn, rfl⟩
  refine ⟨h.replace hw hl hr ?_ ht ?_ ?_, hw⟩
  · intro c hc
    simp only [List.mem_append, List.mem_cons] at hc ⊢
    tauto
  · intro d hd
    rw [List.mem_singleton.mp hd, hmem]
    refine ⟨?_, write8_self, ?_, fun _ => ?_, fun _ => ?_⟩
    · rw [read32_write8_of_apart (by simp only; omega)]
      exact hv.magic
    · rw [read32_write8_of_apart (by simp only; omega)]
      exact hv.size
    · rw [read32_write8_of_apart (by simp only; omega)]
      exact hv.footerMagic (Or.inl rfl)
    · rw [read32_write8_of_apart (by simp only; omega)]
      exact hv.footer (Or.inl rfl)
  · rw [hheap, hmem]
    exact h.index_mem fun x hx => write8_byte (by omega)

/-- Two holes become one: the size and the header that the footer names are written. -/
lemma Shaped.mergeLeft (h : Shaped s (l ++ ⟨a, m, true⟩ :: ⟨a + m, n, true⟩ :: r) as)
    {s₁ : Kheap π} (hs₁ : s₁ = { s with
      mem := write32 (write32 s.mem (a + m + n - 4) a) (a + 8) (m + n) }) :
    Shaped s₁ (l ++ ⟨a, m + n, true⟩ :: r) as ∧ Within s s₁ a (a + (m + n)) := by
  obtain ⟨hl, hm, ⟨-, hn, hr⟩, hlo, -, hv⟩ := h.around
  have hvn := h.valid ⟨a + m, n, true⟩ (by simp)
  have hle := hr.le
  have htop := h.placed.top
  simp only at hl hm hn hr hlo hle
  rw [Nat.add_assoc] at hr hle
  have hsum : 20 ≤ m + n := by omega
  have hfoot : a + m + n - 4 = a + (m + n) - 4 := by omega
  rw [hfoot] at hs₁
  have hbyte : ∀ x, x < a + 8 ∨ a + 12 ≤ x ∧ x < a + (m + n) - 4 ∨ a + (m + n) ≤ x →
      s₁.mem x = s.mem x := by
    intro x hx
    rw [hs₁]
    change write32 _ _ _ x = _
    rw [write32_byte (by omega), write32_byte (by omega)]
  have hw : Within s s₁ a (a + (m + n)) := by
    refine ⟨by rw [hs₁], fun x _ hx => hbyte x (by omega)⟩
  have hheap : s₁.heap = s.heap := by rw [hs₁]
  have ht : Tiled a [⟨a, m + n, true⟩] (a + (m + n)) := ⟨rfl, hsum, rfl⟩
  refine ⟨h.replace hw hl hr ?_ ht ?_ ?_, hw⟩
  · intro c hc
    simp only [List.mem_append, List.mem_cons] at hc ⊢
    tauto
  · intro d hd
    rw [List.mem_singleton.mp hd]
    refine ⟨?_, ?_, ?_, fun hend => ?_, fun _ => ?_⟩
    · rw [read32_congr fun x _ _ => hbyte x (by simp only at *; omega)]
      exact hv.magic
    · rw [hbyte _ (by simp only; omega)]
      exact hv.isHole
    · rw [hs₁]
      exact read32_write32 (by omega)
    · have hstop : a + m + n ≠ s.heap.endAddress := by
        simp only [Bool.true_eq_false, false_or] at hend
        omega
      have hmagic : read32 s.mem (a + (m + n) - 8) = heapMagic := by
        rw [← Nat.add_assoc]
        exact hvn.footerMagic (Or.inr hstop)
      rw [read32_congr fun x _ _ => hbyte x (by simp only at *; omega)]
      exact hmagic
    · rw [hs₁]
      change read32 (write32 _ _ _) _ = _
      rw [read32_write32_of_apart (by simp only; omega)]
      exact read32_write32 (by omega)
  · rw [hheap]
    exact h.index_mem fun x hx => hbyte x (by omega)

/-- **The part "Unify left"**: the hole starts with the one on the left, if there is one. -/
lemma Shaped.unifyLeft_eq (h : Shaped s (l ++ (holeAt b m ++ ⟨b + m, n, true⟩ :: r)) as)
    (hl : ∀ c ∈ l.getLast?, c.hole = false)
    (hfirst : l = [] → m = 0 → Kheap.leftHole s.mem b = none) :
    ∃ s₁, s.unifyLeft (b + m) (b + m + n - 8) = (b, decide (m = 0), s₁) ∧
      Shaped s₁ (l ++ ⟨b, m + n, true⟩ :: r) as ∧ Within s s₁ b (b + (m + n)) ∧
      s₁.heap = s.heap ∧ s₁.slots = s.slots := by
  by_cases hm : m = 0
  · subst hm
    rw [holeAt_zero, List.nil_append, Nat.add_zero] at h
    have hleft : Kheap.leftHole s.mem b = none := by
      rcases List.eq_nil_or_concat l with rfl | ⟨l', c, rfl⟩
      · exact hfirst rfl rfl
      · rw [List.concat_eq_append] at h hl
        rw [List.append_assoc, List.singleton_append] at h
        have htest := h.leftHole_eq
        rwa [hl c (by simp), if_neg Bool.false_ne_true] at htest
    refine ⟨s, ?_, by rwa [Nat.zero_add], Within.refl _ _ _, rfl, rfl⟩
    rw [Nat.add_zero, Kheap.unifyLeft, hleft]
    rfl
  · rw [holeAt_of_ne hm, List.singleton_append] at h
    have htest := h.leftHole_eq
    rw [if_pos rfl] at htest
    obtain ⟨-, hm20, ⟨-, hn, hr⟩, hlo, -, hv⟩ := h.around
    have hvn := h.valid ⟨b + m, n, true⟩ (by simp)
    have hle := hr.le
    have htop := h.placed.top
    simp only at hm20 hn hle hlo
    have hfoot : b + m + n - 8 + 4 = b + m + n - 4 := by omega
    have hcache : s.sizeAt (b + m) = n := hvn.size
    have hsize : read32 (write32 s.mem (b + m + n - 4) b) (b + 8) = m := by
      rw [read32_write32_of_apart (by omega)]
      exact hv.size
    have hadd : add32 m n = m + n := add32_of_lt (by omega)
    obtain ⟨s₁, hs₁⟩ : ∃ s₁ : Kheap π, s₁ = { s with
        mem := write32 (write32 s.mem (b + m + n - 4) b) (b + 8) (m + n) } := ⟨_, rfl⟩
    obtain ⟨hshaped, hw⟩ := h.mergeLeft hs₁
    have hheap₁ : s₁.heap = s.heap := by rw [hs₁]
    refine ⟨s₁, ?_, hshaped, hw, hheap₁, h.slots_mem hheap₁ fun x hx => ?_⟩
    · rw [Kheap.unifyLeft, htest, hs₁]
      simp only [hfoot, hcache, hsize, hadd, hm, decide_false]
    · rw [hs₁]
      change write32 (write32 s.mem (b + m + n - 4) b) (b + 8) (m + n) x = s.mem x
      rw [write32_byte (by omega), write32_byte (by omega)]

/-- Without a hole on the right nothing changes. -/
lemma Shaped.unifyRight_none (h : Shaped s (l ++ ⟨b, n, true⟩ :: r) as)
    (hr : ∀ c ∈ r.head?, c.hole = false)
    (hlast : r = [] → Kheap.rightHole s.mem (b + n - 8) = none) :
    s.unifyRight b (b + n - 8) = .ok (b + n - 8, s) := by
  have hright : Kheap.rightHole s.mem (b + n - 8) = none := by
    cases r with
    | nil => exact hlast rfl
    | cons d r =>
        have htest := h.rightHole_eq
        rwa [hr d (by simp), if_neg Bool.false_ne_true] at htest
  rw [Kheap.unifyRight, hright]

/-- An entry that is found and removed. -/
lemma Indexed.remove_found {item : ℕ} (hx : Indexed s.heap s.mem as) {i : ℕ}
    (hfound : s.slots.findIdx? (· == item) = some i) (hp : as.Perm (item :: bs)) :
    Indexed (s.remove i).heap (s.remove i).mem bs ∧ i < s.heap.size := by
  obtain ⟨hi, heq, -⟩ := List.findIdx?_eq_some_iff_getElem.mp hfound
  have hlength : s.slots.length = s.heap.size := Heap.length_slots
  have hlt : i < s.heap.size := hlength ▸ hi
  have hget : s.slots[i] = s.heap.word s.mem i := Heap.getElem_slots hi
  have hword : s.heap.word s.mem i = item := by
    rw [← hget]
    simpa using heq
  refine ⟨hx.remove hlt ?_, hlt⟩
  rw [hword]
  exact hp

/-- **The part "Unify right"**: the size becomes that of both, and the hole on the right is no entry
any more. Its footer still names it. -/
lemma Shaped.unifyRight_hole (h : Shaped s (l ++ ⟨b, n, true⟩ :: ⟨b + n, k, true⟩ :: r) as)
    (hp : as.Perm ((b + n) :: bs)) :
    ∃ s₁, s.unifyRight b (b + n - 8) = .ok (b + (n + k) - 8, s₁) ∧ Within s s₁ (b + 8) (b + 12) ∧
      Indexed s₁.heap s₁.mem bs ∧ s₁.sizeAt b = n + k ∧ s₁.slots.Sublist s.slots ∧
      s₁.heap.size + 1 = s.heap.size := by
  have hright := h.rightHole_eq
  rw [if_pos rfl] at hright
  obtain ⟨-, hn, ⟨-, hk, hr⟩, hlo, -, hv⟩ := h.around
  have hvk := h.valid ⟨b + n, k, true⟩ (by simp)
  have hle := hr.le
  have htop := h.placed.top
  simp only at hn hk hle hlo
  have hread : s.sizeAt b = n := hv.size
  have hreadk : s.sizeAt (b + n) = k := hvk.size
  have hadd : add32 n k = n + k := add32_of_lt (by omega)
  have hkeep : read32 (write32 s.mem (b + 8) (n + k)) (b + n + 8) = k := by
    rw [read32_write32_of_apart (by omega)]
    exact hreadk
  have hfoot : sub32 (add32 (b + n) k) 8 = b + (n + k) - 8 := by
    rw [add32_of_lt (by omega), sub32_of_le (by omega) (by omega)]
    omega
  obtain ⟨s₁, hs₁⟩ : ∃ s₁ : Kheap π, s₁ = { s with mem := write32 s.mem (b + 8) (n + k) } := ⟨_, rfl⟩
  have hheap₁ : s₁.heap = s.heap := by rw [hs₁]
  have hw₁ : Within s s₁ (b + 8) (b + 12) := by
    refine ⟨by rw [hs₁], fun x _ hx => ?_⟩
    rw [hs₁]
    exact write32_byte (by omega)
  have hindex₁ : Indexed s₁.heap s₁.mem as := by
    rw [hheap₁, hs₁]
    exact h.index_mem fun x hx => write32_byte (by omega)
  have hslots₁ : s₁.slots = s.slots := h.slots_mem hheap₁ fun x hx => by
    rw [hs₁]
    exact write32_byte (by omega)
  -- the hole on the right is found
  obtain ⟨i, hfound⟩ : ∃ i, s₁.slots.findIdx? (· == b + n) = some i := by
    refine Option.isSome_iff_exists.mp ?_
    rw [List.findIdx?_isSome, List.any_eq_true]
    have hmem : b + n ∈ s₁.slots := hindex₁.perm.mem_iff.mpr (hp.mem_iff.mpr List.mem_cons_self)
    exact ⟨b + n, hmem, beq_self_eq_true _⟩
  obtain ⟨hindex, hlt⟩ := hindex₁.remove_found hfound hp
  have hw₂ : Within s₁ (s₁.remove i) (b + 8) (b + 8) := within_remove hindex₁.fits hlt
  have hplaced₁ : s₁.heap.Placed := hw₁.placed h.placed
  have hagree : AgreeOn s₁.mem (s₁.remove i).mem (b + 8) (b + 12) :=
    hw₂.agree hplaced₁ (by rw [hheap₁]; omega) (Or.inr le_rfl)
  refine ⟨s₁.remove i, ?_, hw₁.trans hw₂ le_rfl (by omega), hindex, ?_, ?_, ?_⟩
  · rw [Kheap.unifyRight, hright]
    simp only [hread, hreadk, hadd, hkeep, hfoot, ← hs₁, hfound]
  · have hsize : read32 s₁.mem (b + 8) = n + k := by
      rw [hs₁]
      exact read32_write32 (by omega)
    rw [Kheap.sizeAt, hagree.read32 le_rfl (by omega), hsize]
  · have hremoved : (s₁.remove i).slots = s₁.slots.eraseIdx i := Heap.slots_remove hlt
    rw [hremoved, ← hslots₁]
    exact List.eraseIdx_sublist _ _
  · change s₁.heap.size - 1 + 1 = s.heap.size
    rw [hheap₁] at hlt ⊢
    omega

/-- What `contract` does to the descriptor. -/
lemma contract_eq {h h' : Heap} {newSize newLength : ℕ} {pages pages' : π}
    (hok : h.contract P newSize pages = .ok (newLength, h', pages')) :
    newSize < h.length ∧ newLength = Heap.roundContract newSize ∧
      h' = { h with endAddress := add32 h.startAddress (Heap.roundContract newSize) } := by
  rw [Heap.contract] at hok
  by_cases hlt : newSize < h.length
  · rw [if_pos hlt] at hok
    cases hloop : h.contractLoop P (Heap.roundContract newSize) (2 ^ 20) (sub32 h.length 0x1000)
        pages with
    | error e =>
        simp only [hloop] at hok
        exact absurd hok (by simp [Except.map])
    | ok s =>
        simp only [hloop] at hok
        obtain ⟨rfl, hrest⟩ := Prod.mk.inj (Except.ok.inj hok)
        exact ⟨hlt, rfl, (Prod.mk.inj hrest).1.symm⟩
  · rw [if_neg hlt] at hok
    exact absurd hok (by simp)

/-- The last hole gets another size, up to a new end of the heap. -/
lemma Shaped.resize (h : Shaped s (l ++ [⟨a, n, true⟩]) as) {s₁ : Kheap π} {e : ℕ}
    (hheap : s₁.heap = { s.heap with endAddress := e }) (hk : a + k = e) (hk20 : 20 ≤ k)
    (htop : e < 2 ^ 32)
    (hmem : s₁.mem = writeFooter (write32 s.mem (a + 8) k) (a + k - 8) a) :
    Shaped s₁ (l ++ [⟨a, k, true⟩]) as ∧ ∀ x < a, s₁.mem x = s.mem x := by
  obtain ⟨hl, hn, hend, hlo, -, hv⟩ := h.around
  simp only [tiles_nil] at hl hn hend hlo
  have hbyte : ∀ x, x < a + 8 ∨ a + 12 ≤ x ∧ x < a + k - 8 → s₁.mem x = s.mem x := by
    intro x hx
    rw [hmem, writeFooter_byte (by omega), write32_byte (by omega)]
  have hfoot : a + k - 4 = a + k - 8 + 4 := by omega
  refine ⟨⟨?_, ?_, fun c hc => ?_, ?_⟩, fun x hx => hbyte x (by omega)⟩
  · rw [hheap]
    exact h.placed.of_end htop
  · rw [hheap]
    exact tiles_append.mpr ⟨a, hl, rfl, hk20, hk⟩
  · rw [hheap]
    rcases List.mem_append.mp hc with hc | hc
    · obtain ⟨h1, h2, h3⟩ := hl.bounds hc
      have hold := h.valid c (List.mem_append_left _ hc)
      exact hold.congr h3 (fun x _ hx => hbyte x (by omega)) fun _ => by omega
    · rw [List.mem_singleton.mp hc]
      refine ⟨?_, ?_, ?_, fun _ => ?_, fun _ => ?_⟩
      · rw [read32_congr fun x _ _ => hbyte x (by simp only at *; omega)]
        exact hv.magic
      · rw [hbyte _ (by simp only; omega)]
        exact hv.isHole
      · rw [hmem, writeFooter_read (by simp only; omega), read32_write32 (by omega)]
      · rw [hmem]
        exact writeFooter_magic
      · simp only [hmem, hfoot]
        exact writeFooter_header (by omega)
  · rw [hheap]
    have hx : Indexed s.heap s₁.mem as := h.index_mem fun x hx => hbyte x (by omega)
    exact ⟨hx.perm, hx.fits⟩

/-- `free` when the two sanity checks pass, by its parts. -/
lemma free_parts {p header testHeader : ℕ} {s₁ s₂ : Kheap π} (hp : p ≠ 0)
    (hheader : sub32 p 12 = header)
    (hfooter : sub32 (add32 header (s.sizeAt header)) 8 = footer)
    (htest : add32 footer 8 = testHeader)
    (hmagic : read32 s.mem header = heapMagic ∧ read32 s.mem footer = heapMagic)
    (hs₁ : { s with mem := write8 s.mem (header + 4) 1 } = s₁)
    (hleft : s₁.unifyLeft header footer = (hd, doAdd, s₂)) :
    s.free P p = (s₂.unifyRight hd footer).bind fun (footer, s₃) =>
      (s₃.shrink P hd footer testHeader).map fun s₄ => if doAdd then s₄.insert hd else s₄ := by
  subst hheader hfooter htest
  rw [Kheap.free, if_neg hp]
  refine (if_pos hmagic).trans ?_
  rw [hs₁]
  dsimp only
  rw [hleft]

/-- `free` of a block, by its parts. -/
lemma Laid.free_eq (P : Pager π) (h : Laid s (l ++ ⟨a, n, false⟩ :: r)) {s₁ s₂ : Kheap π}
    (hs₁ : s₁ = { s with mem := write8 s.mem (a + 4) 1 })
    (hleft : s₁.unifyLeft a (a + n - 8) = (hd, doAdd, s₂)) :
    s.free P (a + 12) = (s₂.unifyRight hd (a + n - 8)).bind fun (footer, s₃) =>
      (s₃.shrink P hd footer (a + n)).map fun s₄ => if doAdd then s₄.insert hd else s₄ := by
  obtain ⟨-, hn, -, -, hhi, hv⟩ := h.around
  simp only at hn hhi
  have htop := h.placed.top
  have hread : s.sizeAt a = n := hv.size
  have hheader : sub32 (a + 12) 12 = a := by
    rw [sub32_of_le (by omega) (by omega), Nat.add_sub_cancel]
  have hfooter : sub32 (add32 a (s.sizeAt a)) 8 = a + n - 8 := by
    rw [hread, add32_of_lt (by omega), sub32_of_le (by omega) (by omega)]
  have htest : add32 (a + n - 8) 8 = a + n := by
    rw [add32_of_lt (by omega)]
    omega
  exact free_parts (by omega) hheader hfooter htest
    ⟨hv.magic, hv.footerMagic (Or.inl rfl)⟩ hs₁.symm hleft

end Parts

/-! ### A block and the holes next to it -/

/-- The block of `n` bytes at `b + m` lies between a hole of `m` bytes and one of `k`, where 0 stands
for none. -/
structure Neighbours (s : Kheap π) (l r : List Chunk) (b m n k : ℕ) : Prop where
  laid : Laid s (l ++ (holeAt b m ++ ⟨b + m, n, false⟩ :: (holeAt (b + m + n) k ++ r)))
  left : ∀ c ∈ l.getLast?, c.hole = false
  right : ∀ c ∈ r.head?, c.hole = false

/-- The memory once the block is marked as a hole. -/
def markedMem (s : Kheap π) (a : ℕ) : Bytes := write8 s.mem (a + 4) 1

/-- The entry of the hole on the left stays in the index. -/
def keptEntry (b m : ℕ) : List ℕ := if m = 0 then [] else [b]

/-- The block and the holes next to it have become one hole, up to its footer, when the part of `free`
that contracts the heap begins. -/
structure Merged (s s₃ : Kheap π) (l r : List Chunk) (b m n k : ℕ) : Prop where
  within : Within s s₃ b (b + (m + n + k))
  index : Indexed s₃.heap s₃.mem (keptEntry b m ++ (holes l ++ holes r))
  entries : s₃.slots.Sublist s.slots
  size : s₃.sizeAt b = m + n + k
  shaped : k = 0 ∨ r = [] →
    Shaped s₃ (l ++ ⟨b, m + n + k, true⟩ :: r) (keptEntry b m ++ (holes l ++ holes r))
  stale : k ≠ 0 → r ≠ [] → read32 s₃.mem (b + (m + n + k) - 4) = b + m + n
  count : s₃.heap.size + (if k = 0 then 0 else 1) = s.heap.size

section Neighbours

variable {P : Pager π} {a b n m k : ℕ}

/-- The entries of the index before the call. -/
lemma holes_holeAt : holes (holeAt b m) = keptEntry b m := by
  rw [holeAt, keptEntry]
  split_ifs <;> rfl

lemma holes_neighbours : holes (l ++ (holeAt b m ++ ⟨b + m, n, false⟩ :: (holeAt (b + m + n) k ++ r)))
    = holes l ++ (keptEntry b m ++ (keptEntry (b + m + n) k ++ holes r)) := by
  simp only [holes_append, holes_cons_block, holes_holeAt]

lemma keptEntry_append_perm (x y : List ℕ) :
    (x ++ (keptEntry b m ++ y)).Perm (keptEntry b m ++ (x ++ y)) :=
  List.perm_append_comm_assoc _ _ _

/-- What is on both sides of the block and the holes next to it. -/
lemma Neighbours.tiled (h : Neighbours s l r b m n k) :
    Tiled s.heap.startAddress l b ∧ 20 ≤ n ∧ Tiled (b + (m + n + k)) r s.heap.endAddress := by
  have hlaid := h.laid
  rw [← List.append_assoc] at hlaid
  obtain ⟨hleft, hn, hright, -, -, -⟩ := hlaid.around
  simp only at hleft hn hright
  refine ⟨?_, hn, ?_⟩
  · obtain ⟨x, hx, hrest⟩ := tiles_append.mp hleft
    rw [holeAt] at hrest
    split_ifs at hrest with hm
    · simp only [tiles_nil] at hrest
      rwa [hrest, hm, Nat.add_zero] at hx
    · obtain ⟨rfl, -⟩ := hrest
      exact hx
  · obtain ⟨x, hx, hrest⟩ := tiles_append.mp hright
    have hxdef : x = b + (m + n + k) := by
      rw [holeAt] at hx
      split_ifs at hx with hk
      · simp only [tiles_nil] at hx
        omega
      · obtain ⟨-, -, hend⟩ := hx
        simp only [tiles_nil] at hend
        omega
    rwa [← hxdef]

/-- The block is marked and merged with the hole on its left. -/
lemma Neighbours.left_merged (h : Neighbours s l r b m n k) {s₁ : Kheap π}
    (hs₁ : s₁ = { s with mem := write8 s.mem (b + m + 4) 1 })
    (hfirst : l = [] → m = 0 → Kheap.leftHole (markedMem s b) b = none) :
    ∃ s₂, s₁.unifyLeft (b + m) (b + m + n - 8) = (b, decide (m = 0), s₂) ∧
      Shaped s₂ (l ++ ⟨b, m + n, true⟩ :: (holeAt (b + m + n) k ++ r))
        (keptEntry (b + m + n) k ++ (keptEntry b m ++ (holes l ++ holes r))) ∧
      Within s s₂ b (b + (m + n)) ∧ s₂.heap = s.heap ∧ s₂.slots = s.slots := by
  have hlaid := h.laid
  rw [← List.append_assoc] at hlaid
  obtain ⟨hmarked, hw₁⟩ := hlaid.shaped.mark hs₁
  rw [List.append_assoc] at hmarked
  obtain ⟨s₂, hs₂, hshaped, hw₂, hheap₂, hslots₂⟩ := hmarked.unifyLeft_eq h.left fun hl hm => by
    subst hm
    rw [hs₁]
    exact hfirst hl rfl
  have hheap₁ : s₁.heap = s.heap := by rw [hs₁]
  have hw : Within s s₂ b (b + (m + n)) := by
    have hle := hw₁.mono (c := b) (d := b + (m + n)) (by omega) (by omega)
    exact hle.trans hw₂ le_rfl le_rfl
  refine ⟨s₂, hs₂, hshaped.of_perm ?_, hw, hheap₂.trans hheap₁, hslots₂.trans ?_⟩
  · rw [List.append_assoc, holes_neighbours]
    refine (keptEntry_append_perm _ _).trans ?_
    refine ((keptEntry_append_perm _ _).append_left _).trans ?_
    exact keptEntry_append_perm _ _
  · obtain ⟨-, -, -, hlo, -, -⟩ := hlaid.around
    simp only at hlo
    refine hlaid.shaped.slots_mem hheap₁ fun x hx => ?_
    rw [hs₁]
    exact write8_byte (by omega)

/-- The test on the right reads nothing below the header it is about. -/
lemma rightHole_congr {m m' : Bytes} {footer : ℕ}
    (hm : ∀ x, add32 footer 8 ≤ x → m' x = m x) :
    Kheap.rightHole m' footer = Kheap.rightHole m footer := by
  obtain ⟨q, hq⟩ : ∃ q, add32 footer 8 = q := ⟨_, rfl⟩
  rw [hq] at hm
  rw [Kheap.rightHole, Kheap.rightHole, hq]
  have hmagic : read32 m' q = read32 m q := read32_congr fun x hx _ => hm x hx
  have hhole : m' (q + 4) = m (q + 4) := hm _ (by omega)
  simp only [hmagic, hhole]

/-- Another chunk behind a hole keeps the hole from the end of the heap. -/
lemma Shaped.not_last (h : Shaped s (l ++ ⟨a, n, true⟩ :: r) as) (hr : r ≠ []) :
    a + n + 20 ≤ s.heap.endAddress := by
  obtain ⟨-, -, hrest, -, -, -⟩ := h.around
  cases r with
  | nil => exact absurd rfl hr
  | cons d r =>
      obtain ⟨-, hd, htail⟩ := hrest
      have hle := htail.le
      simp only at hd hle
      omega

/-- The hole on the right is merged, too. -/
lemma Shaped.right_merged {s₂ : Kheap π} {N : ℕ}
    (h : Shaped s₂ (l ++ ⟨b, N, true⟩ :: ⟨b + N, k, true⟩ :: r) as) (hp : as.Perm ((b + N) :: bs)) :
    ∃ s₃, s₂.unifyRight b (b + N - 8) = .ok (b + (N + k) - 8, s₃) ∧ Within s₂ s₃ b (b + (N + k)) ∧
      Indexed s₃.heap s₃.mem bs ∧ s₃.sizeAt b = N + k ∧ s₃.slots.Sublist s₂.slots ∧
      s₃.heap.size + 1 = s₂.heap.size ∧ (r = [] → Shaped s₃ (l ++ ⟨b, N + k, true⟩ :: r) bs) ∧
      (r ≠ [] → read32 s₃.mem (b + (N + k) - 4) = b + N) := by
  obtain ⟨s₃, hs₃, hw, hindex, hsize, hsub, hcount⟩ := h.unifyRight_hole hp
  obtain ⟨hl, hN, ⟨-, hk, hrest⟩, hlo, -, hv⟩ := h.around
  simp only at hl hN hk hrest hlo
  have hplaced := h.placed
  have hwide : Within s₂ s₃ b (b + (N + k)) := hw.mono (by omega) (by omega)
  have hstop : b + N + k = b + (N + k) := Nat.add_assoc ..
  refine ⟨s₃, hs₃, hwide, hindex, hsize, hsub, hcount, fun hr => ?_, fun hr => ?_⟩
  · subst hr
    have hend : b + (N + k) = s₂.heap.endAddress := hstop.symm.trans hrest
    have hagree : AgreeOn s₂.mem s₃.mem b (b + 8) := hw.agree hplaced hlo (Or.inl le_rfl)
    have hsum : 20 ≤ N + k := by omega
    have ht : Tiled b [⟨b, N + k, true⟩] (b + (N + k)) := ⟨rfl, hsum, rfl⟩
    have hnil : Tiled (b + (N + k)) [] s₂.heap.endAddress := hend
    refine h.replace hwide hl hnil (fun c hc => ?_) ht (fun d hd => ?_) hindex
    · rw [List.append_nil] at hc
      exact List.mem_append_left _ hc
    · rw [List.mem_singleton.mp hd]
      refine ⟨?_, ?_, hsize, fun hne => ?_, fun hne => ?_⟩
      · rw [hagree.read32 le_rfl (by omega)]
        exact hv.magic
      · rw [hagree _ (by simp only; omega) (by simp only; omega)]
        exact hv.isHole
      · exact absurd hne (by simp [hend])
      · exact absurd hne (by simp [hend])
  · have hshift : Shaped s₂ ((l ++ [⟨b, N, true⟩]) ++ ⟨b + N, k, true⟩ :: r) as := by
      rwa [List.append_assoc, List.singleton_append]
    have hinner := hshift.not_last hr
    obtain ⟨-, -, -, -, -, hvk⟩ := hshift.around
    have hname : read32 s₂.mem (b + N + k - 4) = b + N :=
      hvk.footer (Or.inr (by simp only; omega))
    have hagree : AgreeOn s₂.mem s₃.mem (b + 12) (b + (N + k)) :=
      hw.agree hplaced (by omega) (Or.inr le_rfl)
    rw [hagree.read32 (by omega) (by omega), ← hstop]
    exact hname

/-- **`free` up to the part that contracts the heap.** -/
lemma Neighbours.free_eq (P : Pager π) (h : Neighbours s l r b m n k)
    (hfirst : l = [] → m = 0 → Kheap.leftHole (markedMem s b) b = none)
    (hlast : r = [] → k = 0 → Kheap.rightHole s.mem (b + m + n - 8) = none) :
    ∃ s₃, Merged s s₃ l r b m n k ∧ s.free P (b + m + 12) =
      (s₃.shrink P b (b + (m + n + k) - 8) (b + m + n)).map fun s₄ =>
        if m = 0 then s₄.insert b else s₄ := by
  have hlaid := h.laid
  rw [← List.append_assoc] at hlaid
  have hplaced := h.laid.placed
  have htop := hplaced.top
  obtain ⟨s₁, hs₁⟩ : ∃ s₁ : Kheap π, s₁ = { s with mem := write8 s.mem (b + m + 4) 1 } := ⟨_, rfl⟩
  obtain ⟨s₂, hs₂, hshaped, hw₂, hheap₂, hslots₂⟩ := h.left_merged hs₁ hfirst
  rw [hlaid.free_eq P hs₁ hs₂]
  obtain ⟨hl, hN, hrest, hlo, hhi, hv⟩ := hshaped.around
  simp only at hl hN hrest hlo hhi
  by_cases hk : k = 0
  · subst hk
    rw [holeAt_zero, List.nil_append] at hshaped hrest
    rw [keptEntry, if_pos rfl, List.nil_append] at hshaped
    -- the end of the heap is not touched
    have hlast₂ : r = [] → Kheap.rightHole s₂.mem (b + (m + n) - 8) = none := by
      rintro rfl
      have hend : b + (m + n) = s.heap.endAddress := by
        rw [← hheap₂]
        exact hrest
      have hstop : b + m + n = b + (m + n) := Nat.add_assoc ..
      have hhead : add32 (b + (m + n) - 8) 8 = b + (m + n) := by
        rw [add32_of_lt (by omega)]
        omega
      rw [rightHole_congr (m := s.mem), ← hstop]
      · exact hlast rfl rfl
      · intro x hx
        rw [hhead] at hx
        have harray := hplaced.index
        rw [hheap₂] at hlo
        exact hw₂.bytes x (by omega) (by omega)
    have hright := hshaped.unifyRight_none h.right hlast₂
    have hstop : b + m + n = b + (m + n) := Nat.add_assoc ..
    refine ⟨s₂, ⟨hw₂, hshaped.index, ?_, hv.size, fun _ => hshaped, fun hne => absurd rfl hne, ?_⟩, ?_⟩
    · rw [hslots₂]
    · rw [hheap₂]
      rfl
    · rw [hstop, hright]
      simp only [Except.bind, Nat.add_zero, decide_eq_true_eq]
  · have hstop : b + m + n = b + (m + n) := Nat.add_assoc ..
    rw [holeAt_of_ne hk, List.singleton_append, keptEntry, if_neg hk, hstop] at hshaped
    obtain ⟨s₃, hs₃, hw₃, hindex, hsize, hsub, hcount, hlastShaped, hstale⟩ :=
      hshaped.right_merged (List.Perm.refl _)
    have hw : Within s s₃ b (b + (m + n + k)) :=
      (hw₂.mono le_rfl (by omega)).trans hw₃ le_rfl le_rfl
    refine ⟨s₃, ⟨hw, hindex, ?_, hsize, ?_, fun _ hr => ?_, ?_⟩, ?_⟩
    · rw [← hslots₂]
      exact hsub
    · rintro (hzero | hr)
      · exact absurd hzero hk
      · exact hlastShaped hr
    · rw [hstop]
      exact hstale hr
    · rw [if_neg hk, hcount, hheap₂]
    · rw [hstop, hs₃]
      simp only [Except.bind, decide_eq_true_eq]

/-! ### A footer in front of the heap -/

/-- The part "Unify right" leaves everything, or the descriptor loses an entry. -/
lemma unifyRight_cases {header footer footer' : ℕ} {s₃ : Kheap π}
    (hok : s.unifyRight header footer = .ok (footer', s₃)) :
    (Kheap.rightHole s.mem footer = none ∧ footer' = footer ∧ s₃ = s) ∨
      s₃.heap = { s.heap with size := s.heap.size - 1 } := by
  rw [Kheap.unifyRight] at hok
  cases hright : Kheap.rightHole s.mem footer with
  | none =>
      rw [hright] at hok
      obtain ⟨rfl, rfl⟩ := Prod.mk.inj (Except.ok.inj hok)
      exact Or.inl ⟨rfl, rfl, rfl⟩
  | some right =>
      rw [hright] at hok
      obtain ⟨s₁, hs₁⟩ : ∃ s₁ : Kheap π, s₁ = { s with
          mem := write32 s.mem (header + 8) (add32 (s.sizeAt header) (s.sizeAt right)) } := ⟨_, rfl⟩
      have hheap₁ : s₁.heap = s.heap := by rw [hs₁]
      simp only [← hs₁] at hok
      cases hfound : s₁.slots.findIdx? (· == right) with
      | none =>
          rw [hfound] at hok
          exact absurd hok (by simp)
      | some i =>
          rw [hfound] at hok
          obtain ⟨-, rfl⟩ := Prod.mk.inj (Except.ok.inj hok)
          refine Or.inr ?_
          rw [← hheap₁]
          rfl

/-- What the part that contracts the heap makes of the descriptor. -/
lemma shrink_heap {header footer testHeader : ℕ} {s₄ : Kheap π}
    (hok : s.shrink P header footer testHeader = .ok s₄) :
    s₄.heap.size ≤ s.heap.size ∧ (s₄.heap = s.heap ∨ s₄.heap = { s.heap with
      size := s₄.heap.size
      endAddress := add32 s.heap.startAddress
        (Heap.roundContract (sub32 header s.heap.startAddress)) }) := by
  rw [Kheap.shrink] at hok
  split_ifs at hok with hend
  · cases hcontract : s.heap.contract P (sub32 header s.heap.startAddress) s.pages with
    | error e =>
        rw [hcontract] at hok
        exact absurd hok (by simp [Except.map])
    | ok res =>
        obtain ⟨newLength, heap, pages⟩ := res
        obtain ⟨-, -, hheap⟩ := contract_eq hcontract
        have hsize : heap.size = s.heap.size := by rw [hheap]
        rw [hcontract] at hok
        obtain ⟨s₁, hs₁⟩ : ∃ s₁ : Kheap π, s₁ = ⟨s.mem, heap, pages⟩ := ⟨_, rfl⟩
        have hheap₁ : s₁.heap = heap := by rw [hs₁]
        obtain ⟨left, hleft⟩ : ∃ left, sub32 (s₁.sizeAt header) (sub32 s.heap.length newLength) = left :=
          ⟨_, rfl⟩
        have hok' := Except.ok.inj hok
        simp only [← hs₁, hleft] at hok'
        have hkeep : s₄.heap.size ≤ s.heap.size ∧ s₄.heap = { heap with size := s₄.heap.size } := by
          by_cases hpos : left > 0
          · rw [if_pos hpos] at hok'
            have hheap₄ : s₄.heap = heap := by rw [← hok']
            rw [hheap₄, hsize]
            exact ⟨le_rfl, by rw [← hsize]⟩
          · rw [if_neg hpos] at hok'
            rw [← hsize, ← hheap₁, ← hok']
            cases hfound : s₁.slots.findIdx? (· == testHeader) with
            | none => exact ⟨le_rfl, rfl⟩
            | some i => exact ⟨Nat.sub_le _ _, rfl⟩
        refine ⟨hkeep.1, Or.inr ?_⟩
        rw [hkeep.2, hheap]
  · rw [← Except.ok.inj hok]
    exact ⟨le_rfl, Or.inl rfl⟩

/-- The part that contracts the heap does nothing elsewhere. -/
lemma shrink_inner {header footer testHeader : ℕ} (hend : add32 footer 8 ≠ s.heap.endAddress) :
    s.shrink P header footer testHeader = .ok s := by
  rw [Kheap.shrink, if_neg hend]

/-- **The first block**, when what is in front of the heap looks like the footer of a hole: the merged
hole is not put in the index, or what was the hole on the right stays there. -/
lemma Neighbours.free_bogus (h : Neighbours s [] r a 0 n k)
    (hbogus : Kheap.leftHole (markedMem s a) a ≠ none) (hok : s.free P (a + 12) = .ok s') :
    s'.heap.size ≤ (holes r).length ∨ (k ≠ 0 ∧ a + n ∈ s'.slots) := by
  have hlaid := h.laid
  rw [holeAt_zero, List.nil_append, Nat.add_zero] at hlaid
  obtain ⟨-, hn, hrest, hlo, hhi, -⟩ := hlaid.around
  simp only at hn hrest hlo hhi
  have htop := hlaid.placed.top
  have harray := hlaid.placed.index
  have hentries : s.slots.Perm (keptEntry (a + n) k ++ holes r) := by
    have hperm := hlaid.index.perm
    rwa [List.nil_append, holes_cons_block, holes_append, holes_holeAt] at hperm
  have hcount : s.heap.size = (keptEntry (a + n) k).length + (holes r).length := by
    rw [← List.length_append, ← hentries.length_eq]
    exact Heap.length_slots.symm
  obtain ⟨c, hc⟩ := Option.ne_none_iff_exists'.mp hbogus
  obtain ⟨s₁, hs₁⟩ : ∃ s₁ : Kheap π, s₁ = { s with mem := write8 s.mem (a + 4) 1 } := ⟨_, rfl⟩
  have hc₁ : Kheap.leftHole s₁.mem a = some c := by rw [hs₁]; exact hc
  obtain ⟨v, hv⟩ : ∃ v, add32 (read32 (write32 s₁.mem (a + n - 8 + 4) c) (c + 8)) (s₁.sizeAt a) = v :=
    ⟨_, rfl⟩
  obtain ⟨s₂, hs₂⟩ : ∃ s₂ : Kheap π, s₂ = { s₁ with
      mem := write32 (write32 s₁.mem (a + n - 8 + 4) c) (c + 8) v } := ⟨_, rfl⟩
  have hleft : s₁.unifyLeft a (a + n - 8) = (c, false, s₂) := by
    rw [Kheap.unifyLeft, hc₁, hs₂, ← hv]
  have hheap₂ : s₂.heap = s.heap := by rw [hs₂, hs₁]
  have hbyte₂ : ∀ x, x ≠ a + 4 → x < a + n - 8 + 4 ∨ a + n ≤ x → x < c + 8 ∨ c + 12 ≤ x →
      s₂.mem x = s.mem x := by
    intro x h1 h2 h3
    rw [hs₂]
    change write32 (write32 s₁.mem (a + n - 8 + 4) c) (c + 8) v x = s.mem x
    rw [write32_byte (by omega), write32_byte (by omega), hs₁]
    exact write8_byte h1
  rw [hlaid.free_eq P hs₁ hleft] at hok
  cases hright : s₂.unifyRight c (a + n - 8) with
  | error e =>
      rw [hright] at hok
      exact absurd hok (by simp [Except.bind])
  | ok res =>
      obtain ⟨footer, s₃⟩ := res
      rw [hright] at hok
      simp only [Except.bind] at hok
      have hok' : s₃.shrink P c footer (a + n) = .ok s' := by
        cases hshrink : s₃.shrink P c footer (a + n) with
        | error e =>
            rw [hshrink] at hok
            exact absurd hok (by simp [Except.map])
        | ok s₄ =>
            rw [hshrink] at hok
            exact congrArg _ (Except.ok.inj hok)
      have hle := (shrink_heap hok').1
      by_cases hk : k = 0
      · left
        rw [hk, keptEntry, if_pos rfl, List.length_nil, Nat.zero_add] at hcount
        rcases unifyRight_cases hright with ⟨-, -, rfl⟩ | hheap₃
        · rw [hheap₂] at hle
          omega
        · simp only [hheap₃, hheap₂] at hle
          omega
      · rw [keptEntry, if_neg hk] at hentries hcount
        rw [List.length_singleton] at hcount
        rcases unifyRight_cases hright with ⟨hnone, rfl, rfl⟩ | hheap₃
        · right
          have hshaped := hlaid.shaped
          rw [holeAt_of_ne hk, List.singleton_append] at hshaped hrest
          obtain ⟨-, hk20, htail⟩ := hrest
          have hle := htail.le
          simp only at hk20 hle
          have hhead : add32 (a + n - 8) 8 = a + n := by
            rw [add32_of_lt (by omega)]
            omega
          rw [shrink_inner (by rw [hhead, hheap₂]; omega)] at hok'
          obtain rfl := Except.ok.inj hok'
          have hfound := hshaped.rightHole_eq
          rw [if_pos rfl] at hfound
          -- the header on the right is only missed if the size was written over it
          have hfar : a ≤ c + 8 := by
            by_contra hnear
            rw [rightHole_congr (m := s.mem)] at hnone
            · simp only at hfound
              rw [hfound] at hnone
              exact absurd hnone (by simp)
            · intro x hx
              rw [hhead] at hx
              exact hbyte₂ x (by omega) (by omega) (by omega)
          refine ⟨hk, ?_⟩
          rw [hlaid.shaped.slots_mem hheap₂ fun x hx => hbyte₂ x (by omega) (by omega) (by omega)]
          exact hentries.mem_iff.mpr (by simp)
        · left
          simp only [hheap₃, hheap₂] at hle
          omega

end Neighbours

end Matanos
