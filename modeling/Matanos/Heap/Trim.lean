import Matanos.Heap.Interior

/-!
`free` of a block whose merged hole ends at the end of the heap.

* `Trimmed`: the heap ends where the hole may end, and what is left of the hole is one;
  `Trimmed.count`: it has one entry, or none;
* `shrink_last`: where the part of `free` that contracts the heap puts the end, and what it writes;
* `Neighbours.free_last`: the heap that is left when the hole starts low enough;
* `Neighbours.trimmed`, `Neighbours.trimmed_conditions`: when the heap is trimmed as it should be;
  `free_last_iff`: exactly then.
-/

namespace Matanos

open Lib

variable {π : Type*} {P : Pager π} {s s' : Kheap π} {l r : List Chunk} {as : List ℕ}
  {a b m n k : ℕ}

/-- The heap ends no lower than the hole at `b` starts and than its least size allows, with what is
left of the hole as the last chunk and an entry of the index. -/
structure Trimmed (s s' : Kheap π) (l : List Chunk) (b : ℕ) : Prop where
  bounds : s.heap.startAddress + heapMinSize ≤ s.heap.endAddress →
    max b (s.heap.startAddress + heapMinSize) ≤ s'.heap.endAddress ∧
      s'.heap.endAddress ≤ s.heap.endAddress
  laid : Laid s' (l ++ if b < s'.heap.endAddress then [⟨b, s'.heap.endAddress - b, true⟩] else [])

/-- What is left of the hole is one entry of the index; nothing left is none. -/
lemma Trimmed.count (h : Trimmed s s' l b) :
    s'.slots.count b = if b < s'.heap.endAddress then 1 else 0 := by
  have hlaid := h.laid
  have hbelow : ∀ x, Tiled s'.heap.startAddress l x → x ≤ b → (holes l).count b = 0 := by
    intro x hx hle
    refine List.count_eq_zero.mpr fun hmem => ?_
    obtain ⟨c, hc, -, hcaddr⟩ := mem_holes.mp hmem
    have := hx.bounds hc
    omega
  have hperm : s'.slots.count b = _ := hlaid.index.perm.count_eq b
  rw [hperm]
  split_ifs at hlaid ⊢ with hpos
  · obtain ⟨x, hx, rfl, -⟩ := tiles_append.mp hlaid.tiled
    rw [holes_append, holes_cons_hole, holes_nil, List.count_append, hbelow _ hx le_rfl,
      List.count_singleton_self]
  · rw [List.append_nil] at hlaid ⊢
    exact hbelow _ hlaid.tiled (by omega)

/-! ### The end of the heap -/

/-- The least size of a heap is in no way 0. -/
lemma roundContract_bounds (hn : n < 2 ^ 32) :
    heapMinSize ≤ Heap.roundContract n ∧ Heap.roundContract n < 2 ^ 32 := by
  have hmin : heapMinSize = 0x70000 := rfl
  rw [Heap.roundContract_eq]
  split_ifs <;> omega

/-- Below the least size the heap gets that size. -/
lemma roundContract_min (hn : n + 20 ≤ heapMinSize) : Heap.roundContract n = heapMinSize := by
  have hmin : heapMinSize = 0x70000 := rfl
  rw [Heap.roundContract_eq, if_pos (Or.inr (by omega))]

/-- The part "Unify left" keeps the descriptor. -/
lemma unifyLeft_heap (header footer : ℕ) : (s.unifyLeft header footer).2.2.heap = s.heap := by
  rw [Kheap.unifyLeft]
  cases Kheap.leftHole s.mem header <;> rfl

/-- The part "Unify right" keeps the descriptor, up to the size of the index. -/
lemma unifyRight_heap {header footer footer' : ℕ}
    (hok : s.unifyRight header footer = .ok (footer', s')) :
    s'.heap = { s.heap with size := s'.heap.size } := by
  rcases unifyRight_cases hok with ⟨-, -, rfl⟩ | hheap
  · rfl
  · rw [hheap]

/-- **Where the heap ends after `free`**: where it did, or at a size of `contract`. -/
lemma Laid.free_end (h : Laid s (l ++ ⟨a, n, false⟩ :: r)) (hok : s.free P (a + 12) = .ok s') :
    s'.heap.startAddress = s.heap.startAddress ∧ (s'.heap.endAddress = s.heap.endAddress ∨
      ∃ k < 2 ^ 32, s'.heap.endAddress = add32 s.heap.startAddress (Heap.roundContract k)) := by
  obtain ⟨s₁, hs₁⟩ : ∃ s₁ : Kheap π, s₁ = { s with mem := write8 s.mem (a + 4) 1 } := ⟨_, rfl⟩
  have hheap₁ : s₁.heap = s.heap := by rw [hs₁]
  obtain ⟨header, doAdd, s₂, hleft⟩ : ∃ header doAdd s₂,
      s₁.unifyLeft a (a + n - 8) = (header, doAdd, s₂) := ⟨_, _, _, rfl⟩
  have hheap₂ : s₂.heap = s.heap := by
    have hkeep := unifyLeft_heap (s := s₁) a (a + n - 8)
    rw [hleft] at hkeep
    exact hkeep.trans hheap₁
  rw [h.free_eq P hs₁ hleft] at hok
  cases hright : s₂.unifyRight header (a + n - 8) with
  | error e =>
      rw [hright] at hok
      exact absurd hok (by simp [Except.bind])
  | ok res =>
      obtain ⟨footer, s₃⟩ := res
      have hheap₃ := unifyRight_heap hright
      rw [hright] at hok
      simp only [Except.bind] at hok
      cases hshrink : s₃.shrink P header footer (a + n) with
      | error e =>
          rw [hshrink] at hok
          exact absurd hok (by simp [Except.map])
      | ok s₄ =>
          rw [hshrink] at hok
          have hends : s'.heap.startAddress = s₄.heap.startAddress ∧
              s'.heap.endAddress = s₄.heap.endAddress := by
            rw [← Except.ok.inj hok]
            cases doAdd <;> exact ⟨rfl, rfl⟩
          rw [hheap₂] at hheap₃
          have hstart : s₃.heap.startAddress = s.heap.startAddress := by rw [hheap₃]
          rcases (shrink_heap hshrink).2 with hheap₄ | hheap₄
          · refine ⟨by rw [hends.1, hheap₄, hstart], Or.inl ?_⟩
            rw [hends.2, hheap₄, hheap₃]
          · refine ⟨by rw [hends.1, hheap₄, hstart], Or.inr ?_⟩
            refine ⟨sub32 header s.heap.startAddress, Nat.mod_lt _ (by decide), ?_⟩
            rw [hends.2, hheap₄, hstart]

/-- The part "Unify right" finds no entry for what is behind the end of the heap. -/
lemma Neighbours.last_none (h : Neighbours s l [] b m n 0)
    (hfirst : l = [] → m = 0 → Kheap.leftHole (markedMem s b) b = none)
    (hok : s.free P (b + m + 12) = .ok s') : Kheap.rightHole s.mem (b + m + n - 8) = none := by
  have hlaid := h.laid
  rw [← List.append_assoc] at hlaid
  obtain ⟨s₁, hs₁⟩ : ∃ s₁ : Kheap π, s₁ = { s with mem := write8 s.mem (b + m + 4) 1 } := ⟨_, rfl⟩
  obtain ⟨s₂, hs₂, hshaped, hw₂, hheap₂, hslots₂⟩ := h.left_merged hs₁ hfirst
  rw [hlaid.free_eq P hs₁ hs₂] at hok
  rw [holeAt_zero, List.nil_append, keptEntry, if_pos rfl, List.nil_append, holes_nil,
    List.append_nil] at hshaped
  obtain ⟨hl, hn, hend, hlo, -, -⟩ := hshaped.around
  have htop := hshaped.placed.top
  have harray := hshaped.placed.index
  simp only [tiles_nil] at hl hn hend hlo
  have hstop : b + m + n = b + (m + n) := Nat.add_assoc ..
  have hhead : add32 (b + (m + n) - 8) 8 = b + (m + n) := by
    rw [add32_of_lt (by omega)]
    omega
  have hsame : Kheap.rightHole s₂.mem (b + (m + n) - 8) = Kheap.rightHole s.mem (b + (m + n) - 8) := by
    refine rightHole_congr fun x hx => hw₂.bytes x ?_ (by omega)
    rw [hheap₂] at harray hlo
    omega
  rw [hstop] at hok ⊢
  cases hright : Kheap.rightHole s.mem (b + (m + n) - 8) with
  | none => rfl
  | some right =>
      exfalso
      have hat : right = b + (m + n) := by
        rw [Kheap.rightHole, hhead] at hright
        split_ifs at hright
        exact (Option.some.inj hright).symm
      rw [Kheap.unifyRight, hsame, hright] at hok
      obtain ⟨s₃, hs₃⟩ : ∃ s₃ : Kheap π, s₃ = { s₂ with
          mem := write32 s₂.mem (b + 8) (add32 (s₂.sizeAt b) (s₂.sizeAt right)) } := ⟨_, rfl⟩
      have hslots₃ : s₃.slots = s₂.slots := hshaped.slots_mem (by rw [hs₃]) fun x hx => by
        rw [hs₃]
        exact write32_byte (by omega)
      simp only [← hs₃] at hok
      cases hfound : s₃.slots.findIdx? (· == right) with
      | none =>
          rw [hfound] at hok
          exact absurd hok (by simp [Except.bind])
      | some i =>
          obtain ⟨hi, heq, -⟩ := List.findIdx?_eq_some_iff_getElem.mp hfound
          have hmem : right ∈ s₃.slots := by
            rw [← eq_of_beq heq]
            exact List.getElem_mem hi
          rw [hslots₃] at hmem
          rcases List.mem_append.mp (hshaped.index.perm.mem_iff.mp hmem) with hkept | hbelow
          · rw [keptEntry] at hkept
            split_ifs at hkept
            · exact absurd hkept (by simp)
            · have := List.mem_singleton.mp hkept
              omega
          · obtain ⟨c, hc, -, hcaddr⟩ := mem_holes.mp hbelow
            have := hl.bounds hc
            omega

/-! ### The part that contracts the heap -/

/-- What is left of the last hole, by the lengths of the heap and by its ends. -/
lemma sub32_left {x b n stop new : ℕ} (hend : b + n = stop) (htop : stop < 2 ^ 32) (hx : x ≤ b)
    (hnew : new < 2 ^ 32) : sub32 n (sub32 (sub32 stop x) new) = sub32 (add32 x new) b := by
  rw [sub32_of_le (by omega) htop]
  simp only [sub32, add32]
  omega

/-- **Where the end is put**, and what is written when that leaves room for a hole. -/
lemma Shaped.shrink_last {testHeader : ℕ} {s₄ : Kheap π}
    (h : Shaped s (l ++ [⟨b, n, true⟩]) as) (htest : testHeader ∉ as)
    (hok : s.shrink P b (b + n - 8) testHeader = .ok s₄) :
    ∃ e, e = add32 s.heap.startAddress (Heap.roundContract (b - s.heap.startAddress)) ∧
      s₄.heap = { s.heap with endAddress := e } ∧
      (b + 20 ≤ e → s₄.mem = writeFooter (write32 s.mem (b + 8) (e - b)) (b + (e - b) - 8) b) := by
  obtain ⟨-, hn, hend, hlo, -, hv⟩ := h.around
  have htop := h.placed.top
  simp only [tiles_nil] at hn hend hlo
  obtain ⟨x, hx⟩ : ∃ x, s.heap.startAddress = x := ⟨_, rfl⟩
  have hoff : sub32 b x = b - x := sub32_of_le (by omega) (by omega)
  have hstop : add32 (b + n - 8) 8 = s.heap.endAddress := by
    rw [add32_of_lt (by omega)]
    omega
  obtain ⟨hmin, hlt⟩ := roundContract_bounds (n := b - x) (by omega)
  obtain ⟨new, hnew⟩ : ∃ new, Heap.roundContract (b - x) = new := ⟨_, rfl⟩
  rw [hnew] at hmin hlt
  have hread : s.sizeAt b = n := hv.size
  rw [Kheap.shrink, if_pos hstop, hx, hoff] at hok
  rw [hx, hnew]
  cases hcontract : s.heap.contract P (b - x) s.pages with
  | error e =>
      rw [hcontract] at hok
      exact absurd hok (by simp [Except.map])
  | ok res =>
      obtain ⟨newLength, heap, pages⟩ := res
      obtain ⟨-, hlength, hheap⟩ := contract_eq hcontract
      rw [hnew] at hlength
      subst newLength
      obtain ⟨e, he⟩ : ∃ e, add32 x new = e := ⟨_, rfl⟩
      have hstop' : add32 s.heap.startAddress (Heap.roundContract (b - x)) = e := by
        rw [hx, hnew]
        exact he
      rw [hstop'] at hheap
      rw [he]
      have hleft : sub32 n (sub32 s.heap.length new) = sub32 e b := by
        rw [Heap.length, hx, ← he]
        exact sub32_left hend htop (by omega) (by omega)
      rw [hcontract] at hok
      obtain ⟨s₁, hs₁⟩ : ∃ s₁ : Kheap π, s₁ = ⟨s.mem, heap, pages⟩ := ⟨_, rfl⟩
      have hread₁ : s₁.sizeAt b = n := by rw [hs₁]; exact hread
      have hheap₁ : s₁.heap = heap := by rw [hs₁]
      have hmem₁ : s₁.mem = s.mem := by rw [hs₁]
      obtain ⟨left, hleft'⟩ : ∃ left, sub32 e b = left := ⟨_, rfl⟩
      have hok' := Except.ok.inj hok
      simp only [← hs₁, hread₁, hleft, hleft'] at hok'
      refine ⟨e, rfl, ?_, fun hroom => ?_⟩
      · by_cases hpos : left > 0
        · rw [if_pos hpos] at hok'
          rw [← hok']
          exact hheap
        · rw [if_neg hpos] at hok'
          have hslots : s₁.slots = s.slots := by
            change s₁.heap.slots s₁.mem = s.heap.slots s.mem
            rw [hheap₁, hmem₁, hheap]
            rfl
          have hnone : s₁.slots.findIdx? (· == testHeader) = none := by
            rw [List.findIdx?_eq_none_iff, hslots]
            intro c hc
            refine beq_eq_false_iff_ne.mpr ?_
            rintro rfl
            exact htest (h.index.perm.mem_iff.mp hc)
          rw [hnone] at hok'
          rw [← hok', hheap₁]
          exact hheap
      · have helt : e < 2 ^ 32 := by
          rw [← he]
          exact Nat.mod_lt _ (by decide)
        have hvalue : left = e - b := by
          rw [← hleft']
          exact sub32_of_le (by omega) helt
        rw [if_pos (by omega)] at hok'
        have hsize : read32 (write32 s₁.mem (b + 8) left) (b + 8) = left :=
          read32_write32 (by omega)
        have hfoot : sub32 (add32 b left) 8 = b + (e - b) - 8 := by
          rw [add32_of_lt (by omega), sub32_of_le (by omega) (by omega), hvalue]
        have hwritten : s₄.mem = writeFooter (write32 s₁.mem (b + 8) left)
            (sub32 (add32 b (read32 (write32 s₁.mem (b + 8) left) (b + 8))) 8) b := by
          rw [← hok', hs₁]
        rw [hwritten, hsize, hfoot, hmem₁, hvalue]

/-! ### The last hole -/

/-- **`free` at the end**, up to the insertion of the merged hole. -/
lemma Neighbours.shrunk (h : Neighbours s l [] b m n k)
    (hfirst : l = [] → m = 0 → Kheap.leftHole (markedMem s b) b = none)
    (hok : s.free P (b + m + 12) = .ok s') :
    ∃ s₄ e, s' = (if m = 0 then s₄.insert b else s₄) ∧
      e = add32 s.heap.startAddress (Heap.roundContract (b - s.heap.startAddress)) ∧
      s₄.heap = { s.heap with size := s₄.heap.size, endAddress := e } ∧
      s₄.heap.size + (if k = 0 then 0 else 1) = s.heap.size ∧
      s₄.heap.size = (keptEntry b m).length + (holes l).length ∧
      (b + 20 ≤ e → Shaped s₄ (l ++ [⟨b, e - b, true⟩]) (keptEntry b m ++ (holes l ++ holes [])) ∧
        (∀ x, s.heap.startAddress ≤ x → x < b → s₄.mem x = s.mem x) ∧
        s₄.slots.Sublist s.slots) := by
  have hlast : ([] : List Chunk) = [] → k = 0 →
      Kheap.rightHole s.mem (b + m + n - 8) = none := by
    rintro - rfl
    exact h.last_none hfirst hok
  obtain ⟨s₃, hmerged, hfree⟩ := h.free_eq P hfirst hlast
  have hshaped := hmerged.shaped (Or.inr rfl)
  obtain ⟨hl, hn, hend, hlo, -, -⟩ := hshaped.around
  have htop := hshaped.placed.top
  simp only [tiles_nil] at hl hn hend hlo
  have hn20 : 20 ≤ n := by
    have hlaid := h.laid
    rw [← List.append_assoc] at hlaid
    exact hlaid.around.2.1
  -- what is behind the block is no entry
  have htest : b + m + n ∉ keptEntry b m ++ (holes l ++ holes []) := by
    intro hmem
    rcases List.mem_append.mp hmem with hkept | hbelow
    · rw [keptEntry] at hkept
      split_ifs at hkept
      · exact absurd hkept (by simp)
      · have := List.mem_singleton.mp hkept
        omega
    · rw [holes_nil, List.append_nil] at hbelow
      obtain ⟨c, hc, -, hcaddr⟩ := mem_holes.mp hbelow
      have := hl.bounds hc
      omega
  cases hshrink : s₃.shrink P b (b + (m + n + k) - 8) (b + m + n) with
  | error e =>
      rw [hfree, hshrink] at hok
      exact absurd hok (by simp [Except.map])
  | ok s₄ =>
      rw [hfree, hshrink] at hok
      obtain ⟨e, he, hheap, hmem⟩ := hshaped.shrink_last htest hshrink
      have hsize : s₄.heap.size = s₃.heap.size := by rw [hheap]
      have helt : e < 2 ^ 32 := by
        rw [he]
        exact Nat.mod_lt _ (by decide)
      have hcount := hmerged.count
      rw [hmerged.within.start] at he
      refine ⟨s₄, e, (Except.ok.inj hok).symm, he, ?_, by rw [hsize]; exact hcount, ?_, fun hroom => ?_⟩
      · rw [hsize, hheap, hmerged.within.heap]
      · have hlength : s₃.slots.length = s₃.heap.size := Heap.length_slots
        rw [hsize, ← hlength]
        have hperm := hmerged.index.perm.length_eq
        rw [holes_nil, List.append_nil, List.length_append] at hperm
        exact hperm
      · obtain ⟨hresized, hbelow⟩ :=
          hshaped.resize hheap (by omega) (by omega) helt (hmem hroom)
        have hindex := h.laid.placed.index
        have hindex₃ := hshaped.placed.index
        have hfits := hshaped.index.fits
        have hslots : s₄.slots = s₃.slots := by
          change s₄.heap.slots s₄.mem = s₃.heap.slots s₃.mem
          rw [hheap]
          change s₃.heap.slots s₄.mem = s₃.heap.slots s₃.mem
          exact Heap.slots_congr fun x _ hx => hbelow x (by omega)
        refine ⟨hresized, fun x hx hxb => ?_, hslots ▸ hmerged.entries⟩
        exact (hbelow x hxb).trans (hmerged.within.bytes x (by omega) (Or.inl hxb))

/-- **The heap that is left** when the hole starts low enough. -/
lemma Neighbours.free_last (h : Neighbours s l [] b m n k) (hok : s.free P (b + m + 12) = .ok s')
    (hlow : b + 20 ≤ s.heap.startAddress + heapMinSize)
    (htop : s.heap.startAddress + heapMinSize < 2 ^ 32)
    (hroom : m = 0 → k = 0 → s.heap.size < s.heap.maxSize)
    (hfirst : l = [] → m = 0 → Kheap.leftHole (markedMem s b) b = none) :
    ∃ e, e = s.heap.startAddress + heapMinSize ∧ s'.heap.endAddress = e ∧
      Laid s' (l ++ [⟨b, e - b, true⟩]) ∧
      ∀ x, s.heap.startAddress ≤ x → x < b → s'.mem x = s.mem x := by
  obtain ⟨s₄, e, rfl, he, hheap, hcount, -, hshaped⟩ := h.shrunk hfirst hok
  have hlo := h.tiled.1.le
  rw [roundContract_min (by omega), add32_of_lt htop] at he
  have hroom₄ : m = 0 → s₄.heap.size < s₄.heap.maxSize := by
    intro hm
    have hmax : s₄.heap.maxSize = s.heap.maxSize := by rw [hheap]
    have hfits := h.laid.index.fits
    rw [hmax]
    split_ifs at hcount with hk
    · have := hroom hm hk
      omega
    · omega
  have hstart₄ : s₄.heap.startAddress = s.heap.startAddress := by rw [hheap]
  have hend₄ : s₄.heap.endAddress = e := by rw [hheap]
  obtain ⟨hshaped₄, hbelow, -⟩ := hshaped (by omega)
  obtain ⟨hlaid, hw⟩ := hshaped₄.addEntry hroom₄
  refine ⟨e, he, hw.stop.trans hend₄, hlaid, fun x hx hxb => ?_⟩
  have hindex := hshaped₄.placed.index
  rw [hw.bytes x (by omega) (Or.inl hxb)]
  exact hbelow x hx hxb

/-- **The heap is trimmed** when the hole starts low enough. -/
lemma Neighbours.trimmed (h : Neighbours s l [] b m n k) (hok : s.free P (b + m + 12) = .ok s')
    (hlow : b + 20 ≤ s.heap.startAddress + heapMinSize)
    (htop : s.heap.startAddress + heapMinSize < 2 ^ 32)
    (hroom : m = 0 → k = 0 → s.heap.size < s.heap.maxSize)
    (hfirst : l = [] → m = 0 → Kheap.leftHole (markedMem s b) b = none) : Trimmed s s' l b := by
  obtain ⟨e, he, hstop, hlaid, -⟩ := h.free_last hok hlow htop hroom hfirst
  have hpos : b < e := by omega
  refine ⟨fun hmin => ?_, ?_⟩
  · rw [hstop]
    omega
  · rw [hstop, if_pos hpos]
    exact hlaid

/-- **What a trimmed heap says** about a call at the end. -/
lemma Neighbours.trimmed_conditions (h : Neighbours s l [] b m n k)
    (hok : s.free P (b + m + 12) = .ok s') (ht : Trimmed s s' l b) :
    b + 20 ≤ s.heap.startAddress + heapMinSize ∧ s.heap.startAddress + heapMinSize < 2 ^ 32 ∧
      (m = 0 → k = 0 → s.heap.size < s.heap.maxSize) ∧
      (l = [] → m = 0 → Kheap.leftHole (markedMem s b) b = none) := by
  have hmin : heapMinSize = 0x70000 := rfl
  have hold := h.laid
  rw [← List.append_assoc] at hold
  have htop := hold.placed.top
  obtain ⟨hl, hn, hrest⟩ := h.tiled
  have hhi := hrest.le
  have hfirst : l = [] → m = 0 → Kheap.leftHole (markedMem s b) b = none := by
    rintro rfl rfl
    by_contra hbogus
    have hbase : s.heap.startAddress = b := hl
    have hlaid' := ht.laid
    rw [List.nil_append] at hlaid'
    have hsize' := hlaid'.size_eq
    split_ifs at hlaid' hsize' with hpos
    · rcases h.free_bogus hbogus hok with hsmall | ⟨-, hmem⟩
      · rw [holes_cons_hole] at hsize'
        simp only [holes_nil, List.length_nil, List.length_singleton] at hsmall hsize'
        omega
      · have heq : b + n = b := List.mem_singleton.mp (hlaid'.index.perm.mem_iff.mp hmem)
        omega
    · -- an empty heap is not what `contract` leaves
      have hempty : s'.heap.startAddress = s'.heap.endAddress := hlaid'.tiled
      obtain ⟨hstart', hsame | ⟨x, hx, hmoved⟩⟩ := hold.free_end hok
      · omega
      · obtain ⟨hleast, hlt⟩ := roundContract_bounds hx
        rw [add32] at hmoved
        omega
  obtain ⟨s₄, e, rfl, he, hheap, hcount, hsize, -⟩ := h.shrunk hfirst hok
  have hstart' : (if m = 0 then s₄.insert b else s₄).heap.startAddress = s.heap.startAddress := by
    have hstart₄ : s₄.heap.startAddress = s.heap.startAddress := by rw [hheap]
    split_ifs
    · exact hstart₄
    · exact hstart₄
  have hstop' : (if m = 0 then s₄.insert b else s₄).heap.endAddress = e := by
    have hend₄ : s₄.heap.endAddress = e := by rw [hheap]
    split_ifs
    · exact hend₄
    · exact hend₄
  have hsize' : (if m = 0 then s₄.insert b else s₄).heap.size = (holes l).length + 1 := by
    rw [keptEntry] at hsize
    split_ifs at hsize ⊢ with hm
    · change s₄.heap.size + 1 = _
      simp only [List.length_nil] at hsize
      omega
    · simp only [List.length_singleton] at hsize
      omega
  have hlaid' := ht.laid
  have hcount' := hlaid'.size_eq
  have htiled' := hlaid'.tiled
  have hfits' := hlaid'.index.fits
  rw [hstop'] at hcount' htiled'
  rw [hstart'] at htiled'
  -- the end is above the hole
  have hpos : b < e := by
    by_contra hneg
    rw [if_neg hneg, List.append_nil, hsize'] at hcount'
    omega
  rw [if_pos hpos] at htiled'
  obtain ⟨x, hx, rfl, hleft, -⟩ := tiles_append.mp htiled'
  simp only at hleft
  have hbelow : s.heap.startAddress ≤ b := hl.le
  have hlow : b - s.heap.startAddress < heapMinSize := by
    by_contra hhigh
    rw [Heap.roundContract_eq] at he
    split_ifs at he with hcase
    · rw [add32_of_lt (by omega)] at he
      omega
    · rw [add32_of_lt (by omega)] at he
      omega
  rw [Heap.roundContract_eq, if_pos (Or.inr hlow)] at he
  have hnowrap : s.heap.startAddress + heapMinSize < 2 ^ 32 := by
    rw [add32] at he
    omega
  rw [add32_of_lt hnowrap] at he
  refine ⟨by omega, hnowrap, fun hm hk => ?_, hfirst⟩
  rw [if_pos hk, Nat.add_zero] at hcount
  rw [if_pos hm] at hfits'
  change s₄.heap.size + 1 ≤ s₄.heap.maxSize at hfits'
  have hmax : s₄.heap.maxSize = s.heap.maxSize := by rw [hheap]
  omega

/-- Freeing the block in front of the end trims the heap as it should be if and only if the merged hole
starts 20 bytes or more below the least size of the heap, that size does not wrap, the index has room,
and what is in front of the first block does not look like the footer of a hole. -/
theorem free_last_iff {π : Type*} (P : Pager π) {s s' : Kheap π} {l : List Chunk} {b m n k : ℕ}
    (h : Neighbours s l [] b m n k) (hok : s.free P (b + m + 12) = .ok s') :
    Trimmed s s' l b ↔
      b + 20 ≤ s.heap.startAddress + heapMinSize ∧ s.heap.startAddress + heapMinSize < 2 ^ 32 ∧
        (m = 0 → k = 0 → s.heap.size < s.heap.maxSize) ∧
        (l = [] → m = 0 → Kheap.leftHole (markedMem s b) b = none) := by
  constructor
  · exact fun ht => h.trimmed_conditions hok ht
  · rintro ⟨hlow, htop, hroom, hfirst⟩
    exact h.trimmed hok hlow htop hroom hfirst

/-! ### Calls that return -/

/-- The loop of `contract` ends, with a pager that does not fail. -/
lemma contractLoop_returns (hfree : ∀ a pages, ∃ pages', P.free a pages = .ok pages') {h : Heap}
    {newSize : ℕ} (hmin : heapMinSize ≤ newSize) (c i : ℕ) (pages : π)
    (hi : i ≤ newSize + 0x1000 * c) (htop : i < 2 ^ 32) :
    ∃ pages', h.contractLoop P newSize c i pages = .ok pages' := by
  have hleast : heapMinSize = 0x70000 := rfl
  induction c generalizing i pages with
  | zero => exact ⟨pages, by rw [Heap.contractLoop, if_neg (by omega)]⟩
  | succ c ih =>
      rw [Heap.contractLoop]
      by_cases hlt : newSize < i
      · obtain ⟨pages₁, hpages₁⟩ := hfree (add32 h.startAddress i) pages
        have hprev : sub32 i 0x1000 = i - 0x1000 := sub32_of_le (by omega) htop
        rw [if_pos hlt, hpages₁, hprev]
        exact ih (i - 0x1000) pages₁ (by omega) (by omega)
      · exact ⟨pages, if_neg hlt⟩

/-- `free` returns when the hole on the right reaches the end. -/
lemma Neighbours.free_last_returns (h : Neighbours s l [] b m n k) (hk : k ≠ 0)
    (hfirst : l = [] → m = 0 → Kheap.leftHole (markedMem s b) b = none)
    (hfree : ∀ a pages, ∃ pages', P.free a pages = .ok pages') :
    ∃ s', s.free P (b + m + 12) = .ok s' := by
  obtain ⟨s₃, hmerged, hparts⟩ := h.free_eq P hfirst fun _ hzero => absurd hzero hk
  have hshaped := hmerged.shaped (Or.inr rfl)
  obtain ⟨-, hn, hend, hlo, -, -⟩ := hshaped.around
  have htop := hshaped.placed.top
  simp only [tiles_nil] at hn hend hlo
  have hstop : add32 (b + (m + n + k) - 8) 8 = s₃.heap.endAddress := by
    rw [add32_of_lt (by omega)]
    omega
  have hoff : sub32 b s₃.heap.startAddress = b - s₃.heap.startAddress :=
    sub32_of_le hlo (by omega)
  have hlength : s₃.heap.length = s₃.heap.endAddress - s₃.heap.startAddress :=
    sub32_of_le (by omega) htop
  obtain ⟨hleast, -⟩ := roundContract_bounds (n := b - s₃.heap.startAddress) (by omega)
  have hlast : sub32 s₃.heap.length 0x1000 < 2 ^ 32 := Nat.mod_lt _ (by decide)
  obtain ⟨pages, hloop⟩ := contractLoop_returns hfree (h := s₃.heap) hleast (2 ^ 20)
    (sub32 s₃.heap.length 0x1000) s₃.pages (by omega) hlast
  rw [hparts, Kheap.shrink, if_pos hstop, hoff, Heap.contract, if_pos (by omega)]
  simp only [hloop]
  exact ⟨_, rfl⟩

/-- The idle pager does not fail. -/
lemma free_idle (a : ℕ) (pages : Unit) : ∃ pages', Pager.idle.free a pages = .ok pages' :=
  ⟨pages, rfl⟩

/-- The third of three blocks is freed. -/
theorem free_last_iff_third :
    ∃ s s' : Kheap Unit, Laid s [⟨0xC0080000, 120, false⟩, ⟨0xC0080078, 120, false⟩,
        ⟨0xC00800F0, 120, false⟩, ⟨0xC0080168, 0x7FE98, true⟩] ∧
      s.free .idle 0xC00800FC = .ok s' ∧
      Trimmed s s' [⟨0xC0080000, 120, false⟩, ⟨0xC0080078, 120, false⟩] 0xC00800F0 := by
  obtain ⟨s₀, s₁, s₂, s, hs₀, hs₁, hs₂, hs, hlaid, hroom, -⟩ := three_blocks
  have h : Neighbours s [⟨0xC0080000, 120, false⟩, ⟨0xC0080078, 120, false⟩] []
      0xC00800F0 0 120 0x7FE98 := ⟨hlaid, by simp, by simp⟩
  obtain ⟨s', hok⟩ := h.free_last_returns (P := .idle) (by simp) (by simp) free_idle
  have hstart : s.heap.startAddress = 0xC0080000 := hlaid.tiled.1.symm
  refine ⟨s, s', hlaid, hok, (free_last_iff .idle h hok).mpr ⟨?_, ?_, by simp, by simp⟩⟩
  · rw [hstart]
    decide
  · rw [hstart]
    decide

/-- A block from 0xC00F9000 on is freed: its offset 0x79000 has the bit that `contract` tests, and the
heap is cut off below it, in the block in front of it. -/
theorem free_cuts_off_block :
    ∃ s₀ s₁ s s' : Kheap Unit,
      Kheap.createHeap 0xC0000000 0xC0100000 0xCFFFF000 false false (fun _ => 0) () = .ok s₀ ∧
        s₀.alloc .idle 0x78FEC false = .ok (0xC008000C, s₁) ∧
        s₁.alloc .idle 100 false = .ok (0xC00F900C, s) ∧
        Neighbours s [⟨0xC0080000, 0x79000, false⟩] [] 0xC00F9000 0 120 0x6F88 ∧
        s.free .idle 0xC00F900C = .ok s' ∧ s'.heap.endAddress = 0xC00F0000 ∧
        ¬ Trimmed s s' [⟨0xC0080000, 0x79000, false⟩] 0xC00F9000 := by
  obtain ⟨s₀, hs₀, hlaid₀, -, hheap₀, hslots₀⟩ := createHeap_laid 0xC0000000 0xC0100000 0xCFFFF000
    false false (fun _ => 0) () (by decide) (by decide) (by decide) (by decide)
  obtain ⟨s₁, hs₁, hlaid₁, hslots₁, hheap₁⟩ :=
    alloc_last .idle 0x78FEC (l := []) hlaid₀ hslots₀ (by decide)
  obtain ⟨s, hs, hlaid, -, hheap⟩ := alloc_last .idle 100
    (l := [⟨0xC0080000, 0x79000, false⟩]) hlaid₁ hslots₁ (by decide)
  have h : Neighbours s [⟨0xC0080000, 0x79000, false⟩] [] 0xC00F9000 0 120 0x6F88 :=
    ⟨hlaid, by simp, by simp⟩
  have hfirst : ([⟨0xC0080000, 0x79000, false⟩] : List Chunk) = [] → (0 : ℕ) = 0 →
      Kheap.leftHole (markedMem s 0xC00F9000) 0xC00F9000 = none := by simp
  obtain ⟨s', hok⟩ := h.free_last_returns (P := .idle) (by simp) hfirst free_idle
  have hstart : s.heap.startAddress = 0xC0080000 := hlaid.tiled.1.symm
  refine ⟨s₀, s₁, s, s', hs₀, hs₁, hs, h, hok, ?_, fun ht => ?_⟩
  · obtain ⟨s₄, e, rfl, he, hheap₄, -⟩ := h.shrunk hfirst hok
    have hend : (if (0 : ℕ) = 0 then s₄.insert 0xC00F9000 else s₄).heap.endAddress = e := by
      rw [if_pos rfl]
      change s₄.heap.endAddress = e
      rw [hheap₄]
    rw [hend, he, hstart]
    decide
  · have hlow := (h.trimmed_conditions hok ht).1
    rw [hstart] at hlow
    exact absurd hlow (by decide)

end Matanos
