import Matanos.Heap.Free

/-!
`free` of a block whose merged hole does not end at the end of the heap.

* `exists_neighbours`: every block of a heap without neighbouring holes stands between such holes or
  none;
* `addEntry`: the merged hole is put in the index, or its entry stays; `Neighbours.entry_sorted`: when
  the index is in order then;
* `free_interior`, `Neighbours.conditions`: when the heap is intact afterwards;
  `free_interior_iff`: exactly then.
-/

namespace Matanos

open Lib

variable {π : Type*} {s s' : Kheap π} {l r cs : List Chunk} {as : List ℕ} {a b m n k : ℕ}

/-! ### Blocks and their neighbours -/

/-- Every block has a hole or none on each side. -/
lemma Laid.exists_neighbours (h : Laid s cs) (hsep : Separated cs) (hc : ⟨a, n, false⟩ ∈ cs) :
    ∃ l r b m k, b + m = a ∧
      cs = l ++ (holeAt b m ++ ⟨b + m, n, false⟩ :: (holeAt (b + m + n) k ++ r)) ∧
      Neighbours s l r b m n k := by
  obtain ⟨L, R, rfl⟩ := List.append_of_mem hc
  obtain ⟨hL, -, hR, -, -, -⟩ := h.around
  simp only at hL hR
  obtain ⟨hsepL, hsepR, -⟩ := List.isChain_append.mp hsep
  have hleft : ∃ l b m, b + m = a ∧ L = l ++ holeAt b m ∧ ∀ c ∈ l.getLast?, c.hole = false := by
    rcases List.eq_nil_or_concat L with rfl | ⟨l, ⟨b, m, hole⟩, rfl⟩
    · exact ⟨[], a, 0, rfl, rfl, by simp⟩
    rw [List.concat_eq_append] at hsepL hL ⊢
    obtain ⟨x, -, hx⟩ := tiles_append.mp hL
    obtain ⟨rfl, hm, hend⟩ := hx
    simp only [tiles_nil] at hm hend
    cases hole with
    | false => exact ⟨l ++ [⟨b, m, false⟩], a, 0, rfl, by simp [holeAt_zero], by simp⟩
    | true =>
        refine ⟨l, b, m, hend, by rw [holeAt_of_ne (by omega)], fun c hclast => ?_⟩
        have hnext := (List.isChain_append.mp hsepL).2.2 c hclast ⟨b, m, true⟩ rfl
        cases hole : c.hole with
        | false => rfl
        | true => exact absurd (hnext hole) (by simp)
  have hright : ∃ k r, R = holeAt (a + n) k ++ r ∧ ∀ c ∈ r.head?, c.hole = false := by
    cases R with
    | nil => exact ⟨0, [], rfl, by simp⟩
    | cons d r =>
        obtain ⟨d, k, hole⟩ := d
        obtain ⟨hd, hk, -⟩ := hR
        simp only at hd hk
        subst hd
        cases hole with
        | false => exact ⟨0, ⟨a + n, k, false⟩ :: r, rfl, by simp⟩
        | true =>
            refine ⟨k, r, by rw [holeAt_of_ne (by omega)]; rfl, fun c hcfirst => ?_⟩
            exact (List.isChain_cons.mp (List.isChain_cons.mp hsepR).2).1 c hcfirst rfl
  obtain ⟨l, b, m, rfl, rfl, hl⟩ := hleft
  obtain ⟨k, r, rfl, hr⟩ := hright
  rw [List.append_assoc] at h ⊢
  exact ⟨l, r, b, m, k, rfl, rfl, h, hl, hr⟩

/-! ### The entry of the merged hole -/

/-- The merged hole is put in the index, unless it is there already. -/
lemma Shaped.addEntry {N : ℕ} (h : Shaped s (l ++ ⟨b, N, true⟩ :: r)
      (keptEntry b m ++ (holes l ++ holes r)))
    (hroom : m = 0 → s.heap.size < s.heap.maxSize) :
    Laid (if m = 0 then s.insert b else s) (l ++ ⟨b, N, true⟩ :: r) ∧
      Within s (if m = 0 then s.insert b else s) b b := by
  have hperm : (b :: (holes l ++ holes r)).Perm (holes (l ++ ⟨b, N, true⟩ :: r)) := by
    rw [holes_append, holes_cons_hole]
    exact List.perm_middle.symm
  obtain ⟨-, -, -, -, hhi, -⟩ := h.around
  have htop := h.placed.top
  simp only at hhi
  by_cases hm : m = 0
  · rw [if_pos hm]
    rw [keptEntry, if_pos hm, List.nil_append] at h
    have hw : Within s (s.insert b) 0 0 := within_insert (hroom hm) b
    have hindex := (h.index.insert b (by omega) (hroom hm)).of_perm hperm
    refine ⟨⟨hw.placed h.placed, ?_, fun c hc => ?_, hindex⟩, within_insert (hroom hm) b⟩
    · rw [hw.start, hw.stop]
      exact h.tiled
    · obtain ⟨hlo, -, hn⟩ := h.tiled.bounds hc
      rw [hw.stop]
      exact hw.valid h.placed (h.valid c hc) hn hlo (Or.inr (Nat.zero_le _))
  · rw [if_neg hm]
    rw [keptEntry, if_neg hm] at h
    exact ⟨h.laid hperm, Within.refl _ _ _⟩

/-! ### The merged hole in the middle -/

section Interior

variable (P : Pager π)

/-- The hole that is not at the end is left as it is. -/
lemma Merged.shrink_eq {s₃ : Kheap π} (hm : Merged s s₃ l r b m n k) (h : Neighbours s l r b m n k)
    (hr : r ≠ []) (testHeader : ℕ) :
    s₃.shrink P b (b + (m + n + k) - 8) testHeader = .ok s₃ ∧
      b + (m + n + k) + 20 ≤ s.heap.endAddress := by
  obtain ⟨-, hn, hrest⟩ := h.tiled
  have htop := h.laid.placed.top
  have hfar : b + (m + n + k) + 20 ≤ s.heap.endAddress := by
    cases r with
    | nil => exact absurd rfl hr
    | cons d r =>
        obtain ⟨-, hd, htail⟩ := hrest
        have hle := htail.le
        omega
  refine ⟨shrink_inner ?_, hfar⟩
  rw [hm.within.stop, add32_of_lt (by omega)]
  omega

/-- **`free` in the middle**, without a hole on the right. -/
lemma Neighbours.free_interior (h : Neighbours s l r b m n 0) (hr : r ≠ [])
    (hroom : m = 0 → s.heap.size < s.heap.maxSize)
    (hfirst : l = [] → m = 0 → Kheap.leftHole (markedMem s b) b = none) :
    ∃ s', s.free P (b + m + 12) = .ok s' ∧ Laid s' (l ++ ⟨b, m + n + 0, true⟩ :: r) ∧
      Within s s' b (b + (m + n + 0)) := by
  obtain ⟨s₃, hmerged, hfree⟩ := h.free_eq P hfirst fun hnil => absurd hnil hr
  rw [(hmerged.shrink_eq P h hr _).1] at hfree
  have hcount := hmerged.count
  rw [if_pos rfl, Nat.add_zero] at hcount
  obtain ⟨hlaid, hw⟩ := (hmerged.shaped (Or.inl rfl)).addEntry fun hm => by
    rw [hcount, hmerged.within.capacity]
    exact hroom hm
  exact ⟨_, hfree, hlaid, hmerged.within.trans hw le_rfl (by omega)⟩

/-- The other holes are outside the merged one. -/
lemma Neighbours.outside (h : Neighbours s l r b m n k) {c : ℕ} (hc : c ∈ holes l ++ holes r) :
    s.heap.startAddress ≤ c ∧ (c + 20 ≤ b ∨ b + (m + n + k) ≤ c) := by
  obtain ⟨hl, -, hr⟩ := h.tiled
  have hlo := hl.le
  rcases List.mem_append.mp hc with hmem | hmem
  · obtain ⟨d, hd, -, rfl⟩ := mem_holes.mp hmem
    have := hl.bounds hd
    omega
  · obtain ⟨d, hd, -, rfl⟩ := mem_holes.mp hmem
    have := hr.bounds hd
    omega

/-- Their sizes are kept. -/
lemma Merged.sizeAt_other {s₃ : Kheap π} (hm : Merged s s₃ l r b m n k) (h : Neighbours s l r b m n k)
    {c : ℕ} (hc : c ∈ holes l ++ holes r) : s₃.sizeAt c = s.sizeAt c := by
  obtain ⟨-, hn, -⟩ := h.tiled
  obtain ⟨hstart, hapart⟩ := h.outside hc
  have hagree : AgreeOn s.mem s₃.mem c (c + 12) :=
    hm.within.agree h.laid.placed hstart (by omega)
  exact hagree.read32 (by omega) le_rfl

/-- **The index stays sorted** when the merged hole is put in its place, or has an entry already where its
size fits. -/
lemma Neighbours.entry_sorted {N : ℕ} {t : Kheap π} (h : Neighbours s l r b m n k)
    (hsorted : SortedIndex s) (hplaced : t.heap.Placed)
    (hstart : t.heap.startAddress = s.heap.startAddress) (hsub : t.slots.Sublist s.slots)
    (hindex : Indexed t.heap t.mem (keptEntry b m ++ (holes l ++ holes r)))
    (hother : ∀ c ∈ holes l ++ holes r, t.sizeAt c = s.sizeAt c) (hsize : t.sizeAt b = N)
    (hroom : m = 0 → t.heap.size < t.heap.maxSize) (hfits : m ≠ 0 → KeyFits s t.slots b N) :
    SortedIndex (if m = 0 then t.insert b else t) := by
  have hmem : ∀ c ∈ t.slots, c ≠ b ∨ m = 0 → c ∈ holes l ++ holes r := by
    intro c hc hne
    rcases List.mem_append.mp (hindex.perm.mem_iff.mp hc) with hkept | hc'
    · rw [keptEntry] at hkept
      split_ifs at hkept with hm
      · exact absurd hkept (by simp)
      · exact absurd (List.mem_singleton.mp hkept) (hne.resolve_right hm)
    · exact hc'
  by_cases hm : m = 0
  · rw [if_pos hm]
    have hkept : SortedIndex t := hsorted.congr hsub fun c hc => hother c (hmem c hc (Or.inr hm))
    obtain ⟨hl, hn, hr⟩ := h.tiled
    have hlo := hl.le
    have hhi := hr.le
    have htop := h.laid.placed.top
    refine hkept.insert hplaced (hroom hm) (by omega) fun c hc => ?_
    rw [hstart]
    rcases List.mem_cons.mp hc with rfl | hc
    · exact hlo
    · exact (h.outside (hmem c hc (Or.inr hm))).1
  · rw [if_neg hm]
    exact hsorted.rekey hsub (hfits hm) hsize fun c hc hne => hother c (hmem c hc (Or.inl hne))

/-- Without a hole on the left the merged hole is put in its place. -/
lemma Merged.insert_sorted {s₃ : Kheap π} (hm : Merged s s₃ l r b 0 n k) (h : Neighbours s l r b 0 n k)
    (hsorted : SortedIndex s) (hroom : s₃.heap.size < s₃.heap.maxSize) : SortedIndex (s₃.insert b) := by
  have hinsert := h.entry_sorted hsorted (hm.within.placed h.laid.placed) hm.within.start hm.entries
    hm.index (fun c hc => hm.sizeAt_other h hc) hm.size (fun _ => hroom) fun hne => absurd rfl hne
  rwa [if_pos rfl] at hinsert

/-- The index stays sorted, too, if the size of the merged hole fits in the place of the hole on the
left. -/
lemma Neighbours.free_interior_sorted (h : Neighbours s l r b m n 0) (hr : r ≠ [])
    (hroom : m = 0 → s.heap.size < s.heap.maxSize)
    (hfirst : l = [] → m = 0 → Kheap.leftHole (markedMem s b) b = none)
    (hfits : m ≠ 0 → KeyFits s s.slots b (m + n)) (hsorted : SortedIndex s)
    (hok : s.free P (b + m + 12) = .ok s') : SortedIndex s' := by
  obtain ⟨s₃, hmerged, hfree⟩ := h.free_eq P hfirst fun hnil => absurd hnil hr
  rw [(hmerged.shrink_eq P h hr _).1, hok] at hfree
  have hcount := hmerged.count
  rw [if_pos rfl, Nat.add_zero] at hcount
  have hslots : s₃.slots = s.slots := hmerged.entries.eq_of_length
    (Heap.length_slots.trans (hcount.trans Heap.length_slots.symm))
  rw [Except.ok.inj hfree]
  refine h.entry_sorted hsorted (hmerged.within.placed h.laid.placed) hmerged.within.start hmerged.entries
    hmerged.index (fun c hc => hmerged.sizeAt_other h hc) hmerged.size (fun hm => ?_) fun hm => ?_
  · rw [hcount, hmerged.within.capacity]
    exact hroom hm
  · rw [hslots, Nat.add_zero]
    exact hfits hm

/-- The size of the index is that of the holes. -/
lemma Laid.size_eq (h : Laid s cs) : s.heap.size = (holes cs).length := by
  rw [← h.index.perm.length_eq]
  exact Heap.length_slots.symm

/-- **What an intact heap says** about a call in the middle. -/
lemma Neighbours.conditions (h : Neighbours s l r b m n k) (hr : r ≠ [])
    (hok : s.free P (b + m + 12) = .ok s') (hlaid' : Laid s' (l ++ ⟨b, m + n + k, true⟩ :: r))
    (hw' : Within s s' b (b + (m + n + k))) :
    k = 0 ∧ (m = 0 → s.heap.size < s.heap.maxSize) ∧
      (l = [] → m = 0 → Kheap.leftHole (markedMem s b) b = none) := by
  have hsize' := hlaid'.size_eq
  rw [holes_append, holes_cons_hole, List.length_append, List.length_cons] at hsize'
  obtain ⟨-, hn', -, hlo', hhi', hv'⟩ := hlaid'.around
  have hn : 20 ≤ n := by
    have hlaid := h.laid
    rw [← List.append_assoc] at hlaid
    exact hlaid.around.2.1
  simp only at hn' hlo' hhi'
  have hfirst : l = [] → m = 0 → Kheap.leftHole (markedMem s b) b = none := by
    rintro rfl rfl
    by_contra hbogus
    rcases h.free_bogus hbogus hok with hsmall | ⟨hk, hmem⟩
    · rw [holes_nil, List.length_nil] at hsize'
      omega
    · -- the hole on the right would lie in the merged one
      obtain ⟨c, hc, -, hcaddr⟩ := mem_holes.mp (hlaid'.index.perm.mem_iff.mp hmem)
      rcases hlaid'.tiled.apart hc (by simp : (⟨b, 0 + n + k, true⟩ : Chunk) ∈ _) with rfl | hbelow | habove
      · simp only at hcaddr
        omega
      · have := (hlaid'.tiled.bounds hc).2.2
        simp only at hbelow
        omega
      · simp only at habove
        omega
  obtain ⟨s₃, hmerged, hfree⟩ := h.free_eq P hfirst fun hnil => absurd hnil hr
  obtain ⟨hshrink, hfar⟩ := hmerged.shrink_eq P h hr (b + m + n)
  rw [hshrink] at hfree
  obtain rfl : (if m = 0 then s₃.insert b else s₃) = s' := Except.ok.inj (hfree.symm.trans hok)
  have hcount := hmerged.count
  have hk : k = 0 := by
    by_contra hk
    have hstale := hmerged.stale hk hr
    rw [if_neg hk] at hcount
    have hname := hv'.footer (Or.inr (by rw [hw'.stop]; simp only; omega))
    simp only at hname
    have hagree : AgreeOn s₃.mem (if m = 0 then s₃.insert b else s₃).mem b (b + (m + n + k)) := by
      by_cases hm : m = 0
      · rw [if_pos hm]
        have hroom : s₃.heap.size < s₃.heap.maxSize := by
          rw [hmerged.within.capacity]
          have := h.laid.index.fits
          omega
        have hw : Within s₃ (s₃.insert b) 0 0 := within_insert hroom b
        refine hw.agree (hmerged.within.placed h.laid.placed) ?_ (Or.inr (Nat.zero_le _))
        rw [hmerged.within.start, ← hw'.start]
        exact hlo'
      · rw [if_neg hm]
        exact fun _ _ _ => rfl
    rw [hagree.read32 (by omega) (by omega), hstale] at hname
    omega
  refine ⟨hk, fun hm => ?_, hfirst⟩
  have hfits := hlaid'.index.fits
  rw [if_pos hk, Nat.add_zero] at hcount
  rw [if_pos hm] at hfits
  have hsize : (s₃.insert b).heap.size = s₃.heap.size + 1 := rfl
  have hmax : (s₃.insert b).heap.maxSize = s₃.heap.maxSize := rfl
  rw [hsize, hmax, hmerged.within.capacity] at hfits
  omega

/-- A merged hole between blocks separates as before. -/
lemma Neighbours.separated (h : Neighbours s l r b m n k)
    (hsep : Separated (l ++ (holeAt b m ++ ⟨b + m, n, false⟩ :: (holeAt (b + m + n) k ++ r)))) :
    Separated (l ++ ⟨b, m + n + k, true⟩ :: r) := by
  obtain ⟨hl, hrest, -⟩ := List.isChain_append.mp hsep
  obtain ⟨-, hblock, -⟩ := List.isChain_append.mp hrest
  obtain ⟨-, hr⟩ := List.isChain_cons.mp hblock
  obtain ⟨-, hr, -⟩ := List.isChain_append.mp hr
  refine List.isChain_append.mpr ⟨hl, List.isChain_cons.mpr ⟨fun d hd _ => h.right d hd, hr⟩, ?_⟩
  intro c hc d hd hhole
  rw [h.left c hc] at hhole
  exact absurd hhole (by simp)

end Interior

/-- Freeing a block in the middle leaves an intact heap with one merged hole if and only if there is no
hole on the right, the index has room where no hole on the left has an entry already, and what is in
front of the first block does not look like the footer of a hole. -/
theorem free_interior_iff {π : Type*} (P : Pager π) {s : Kheap π} {l r : List Chunk} {b m n k : ℕ}
    (h : Neighbours s l r b m n k) (hr : r ≠ [])
    (hsep : Separated (l ++ (holeAt b m ++ ⟨b + m, n, false⟩ :: (holeAt (b + m + n) k ++ r)))) :
    (∃ s', s.free P (b + m + 12) = .ok s' ∧ Laid s' (l ++ ⟨b, m + n + k, true⟩ :: r) ∧
        Separated (l ++ ⟨b, m + n + k, true⟩ :: r) ∧ Within s s' b (b + (m + n + k))) ↔
      k = 0 ∧ (m = 0 → s.heap.size < s.heap.maxSize) ∧
        (l = [] → m = 0 → Kheap.leftHole (markedMem s b) b = none) := by
  constructor
  · rintro ⟨s', hok, hlaid', -, hw'⟩
    exact h.conditions P hr hok hlaid' hw'
  · rintro ⟨rfl, hroom, hfirst⟩
    obtain ⟨s', hok, hlaid', hw'⟩ := h.free_interior P hr hroom hfirst
    exact ⟨s', hok, hlaid', h.separated hsep, hw'⟩

/-! ### Three blocks -/

/-- Three blocks of 100 bytes in the heap at the start. -/
lemma three_blocks : ∃ s₀ s₁ s₂ s₃ : Kheap Unit,
    Kheap.createHeap 0xC0000000 0xC0100000 0xCFFFF000 false false (fun _ => 0) () = .ok s₀ ∧
      s₀.alloc .idle 100 false = .ok (0xC008000C, s₁) ∧
      s₁.alloc .idle 100 false = .ok (0xC0080084, s₂) ∧
      s₂.alloc .idle 100 false = .ok (0xC00800FC, s₃) ∧
      Laid s₃ [⟨0xC0080000, 120, false⟩, ⟨0xC0080078, 120, false⟩, ⟨0xC00800F0, 120, false⟩,
        ⟨0xC0080168, 0x7FE98, true⟩] ∧ s₃.heap.size < s₃.heap.maxSize ∧ s₃.slots = [0xC0080168] := by
  obtain ⟨s₀, hs₀, hlaid₀, -, hheap₀, hslots₀⟩ := createHeap_laid 0xC0000000 0xC0100000 0xCFFFF000
    false false (fun _ => 0) () (by decide) (by decide) (by decide) (by decide)
  obtain ⟨s₁, hs₁, hlaid₁, hslots₁, hheap₁⟩ :=
    alloc_last .idle 100 (l := []) hlaid₀ hslots₀ (by decide)
  obtain ⟨s₂, hs₂, hlaid₂, hslots₂, hheap₂⟩ := alloc_last .idle 100
    (l := [⟨0xC0080000, 120, false⟩]) hlaid₁ hslots₁ (by decide)
  obtain ⟨s₃, hs₃, hlaid₃, hslots₃, hheap₃⟩ := alloc_last .idle 100
    (l := [⟨0xC0080000, 120, false⟩, ⟨0xC0080078, 120, false⟩]) hlaid₂ hslots₂ (by decide)
  refine ⟨s₀, s₁, s₂, s₃, hs₀, hs₁, hs₂, hs₃, hlaid₃, ?_, hslots₃⟩
  rw [hheap₃, hheap₂, hheap₁, hheap₀]
  decide

/-- The second of them is freed: its neighbours are blocks. -/
theorem free_interior_iff_second :
    ∃ s s' : Kheap Unit, Laid s [⟨0xC0080000, 120, false⟩, ⟨0xC0080078, 120, false⟩,
        ⟨0xC00800F0, 120, false⟩, ⟨0xC0080168, 0x7FE98, true⟩] ∧
      s.free .idle 0xC0080084 = .ok s' ∧ Laid s' [⟨0xC0080000, 120, false⟩, ⟨0xC0080078, 120, true⟩,
        ⟨0xC00800F0, 120, false⟩, ⟨0xC0080168, 0x7FE98, true⟩] := by
  obtain ⟨-, -, -, s, -, -, -, -, hlaid, hroom, -⟩ := three_blocks
  have h : Neighbours s [⟨0xC0080000, 120, false⟩] [⟨0xC00800F0, 120, false⟩,
      ⟨0xC0080168, 0x7FE98, true⟩] 0xC0080078 0 120 0 := ⟨hlaid, by simp, by simp⟩
  have hsep : Separated [⟨0xC0080000, 120, false⟩, ⟨0xC0080078, 120, false⟩,
      ⟨0xC00800F0, 120, false⟩, ⟨0xC0080168, 0x7FE98, true⟩] := by simp [Separated]
  obtain ⟨s', hok, hlaid', -, -⟩ := (free_interior_iff .idle h (by simp) hsep).mpr
    ⟨rfl, fun _ => hroom, by simp⟩
  exact ⟨s, s', hlaid, hok, hlaid'⟩

/-- With the second block free already, freeing the first leaves the footer of the merged hole naming
the header of the second. -/
theorem free_keeps_stale_footer :
    ∃ s : Kheap Unit, Neighbours s [] [⟨0xC00800F0, 120, false⟩, ⟨0xC0080168, 0x7FE98, true⟩]
        0xC0080000 0 120 120 ∧
      Separated [⟨0xC0080000, 120, false⟩, ⟨0xC0080078, 120, true⟩, ⟨0xC00800F0, 120, false⟩,
        ⟨0xC0080168, 0x7FE98, true⟩] ∧
      ¬ ∃ s', s.free .idle 0xC008000C = .ok s' ∧
        Laid s' [⟨0xC0080000, 240, true⟩, ⟨0xC00800F0, 120, false⟩, ⟨0xC0080168, 0x7FE98, true⟩] ∧
        Separated [⟨0xC0080000, 240, true⟩, ⟨0xC00800F0, 120, false⟩, ⟨0xC0080168, 0x7FE98, true⟩] ∧
        Within s s' 0xC0080000 0xC00800F0 := by
  obtain ⟨-, -, -, s₃, -, -, -, -, hlaid₃, hroom, -⟩ := three_blocks
  have h₃ : Neighbours s₃ [⟨0xC0080000, 120, false⟩] [⟨0xC00800F0, 120, false⟩,
      ⟨0xC0080168, 0x7FE98, true⟩] 0xC0080078 0 120 0 := ⟨hlaid₃, by simp, by simp⟩
  obtain ⟨s, -, hlaid, -⟩ := h₃.free_interior .idle (by simp) (fun _ => hroom) (by simp)
  have h : Neighbours s [] [⟨0xC00800F0, 120, false⟩, ⟨0xC0080168, 0x7FE98, true⟩]
      0xC0080000 0 120 120 := ⟨hlaid, by simp, by simp⟩
  refine ⟨s, h, by simp [Separated], ?_⟩
  rintro ⟨s', hok, hlaid', -, hw'⟩
  exact absurd (h.conditions .idle (by simp) hok hlaid' hw').1 (by decide)

end Matanos
