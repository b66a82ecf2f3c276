import Matanos.Heap.Clients
import Matanos.Heap.Search

/-!
The order of the index over whole runs.

An entry stays in its place of the index when the size of its hole is changed: by an aligned block behind
it, by a growth of the heap, or by `free` of the block behind it.

* `AllocOrder`, `FreeOrder`, `KeepsOrder`: the new size fits in that place;
* `Laid.retried_sorted`, `place_aligned_sorted`, `Laid.free_sorted`: the index stays sorted, then;
* `SortedIndex.takes_best`: in a sorted index the first hole that is large enough is the smallest;
* `heap_takes_best_fit`: whole runs.
-/

namespace Matanos

open Lib

variable {π : Type*} {P : Pager π} {s s' t : Kheap π} {l r cs : List Chunk} {pageAlign : Bool}
  {a b n m k p i pos size ns : ℕ}

/-! ### The order in a call -/

/-- A growth of the heap gives the hole that ends it a size that fits in its place, and so does the hole in
front of an aligned block. -/
structure AllocOrder (P : Pager π) (s : Kheap π) (size : ℕ) (pageAlign : Bool) : Prop where
  grows : ∀ t t', Seen P (size + 20) pageAlign s t → Retried P (size + 20) pageAlign t t' →
    ∀ a ∈ t.slots, a + t.sizeAt a = t.heap.endAddress →
      KeyFits t t.slots a (t.heap.nextEnd (size + 20) - a)
  front : pageAlign = true → ∀ t i, Seen P (size + 20) pageAlign s t →
    t.findSmallestHole (size + 20) pageAlign = some i →
    KeyFits t t.slots (t.heap.word t.mem i) (frontSize (t.heap.word t.mem i))

/-- The size of the merged hole, or of what the end of the heap leaves of it, fits in the place of the
hole on the left. -/
def FreeOrder (s : Kheap π) (a : ℕ) : Prop :=
  Kheap.leftHole (markedMem s a) a ≠ none →
    KeyFits s (s.slots.filter fun x => Kheap.rightHole s.mem (a + s.sizeAt a - 8) ≠ some x)
      (mergedStart s a)
      ((if mergedEnd s a = s.heap.endAddress then s.heap.startAddress + heapMinSize else mergedEnd s a)
        - mergedStart s a)

/-- The hole that `alloc` found for the block at `p`, in the heap at that time, is a smallest one of those
that are large enough. -/
def TakesBest (P : Pager π) (s : Kheap π) (size p : ℕ) : Prop :=
  ∃ t i, Seen P (add32 size 20) false s t ∧ t.findSmallestHole (add32 size 20) false = some i ∧
    p = t.heap.word t.mem i + 12 ∧
    IsLeast {n | size + 20 ≤ n ∧ ∃ a ∈ t.slots, t.sizeAt a = n} (t.sizeAt (p - 12))

/-- **The first hole that is large enough** is a smallest one in a sorted index. -/
lemma SortedIndex.takes_best (h : SortedIndex s) (hfind : s.findSmallestHole ns false = some i) :
    IsLeast {n | ns ≤ n ∧ ∃ a ∈ s.slots, s.sizeAt a = n} (s.sizeAt (s.heap.word s.mem i)) := by
  obtain ⟨hi, hfits, hbefore⟩ := List.findIdx?_eq_some_iff_getElem.mp hfind
  have hlt : i < s.heap.size := (findSmallestHole_some hfind).1
  have hword : s.slots[i] = s.heap.word s.mem i := by
    have hget : s.slots[i]? = some (s.heap.word s.mem i) := Heap.getElem?_slots hlt
    rw [List.getElem?_eq_getElem hi] at hget
    exact Option.some.inj hget
  rw [← hword]
  refine ⟨⟨by simpa [fitsHole, Kheap.sizeAt] using hfits, _, List.getElem_mem hi, rfl⟩, ?_⟩
  rintro n ⟨hle, a, ha, rfl⟩
  obtain ⟨j, hj, rfl⟩ := List.getElem_of_mem ha
  rcases Nat.lt_trichotomy i j with hij | rfl | hji
  · exact List.pairwise_iff_getElem.mp h i j hi hj hij
  · exact le_rfl
  · -- the search stops at the first one
    exact absurd hle (by simpa [fitsHole, Kheap.sizeAt] using hbefore j hji)

/-! ### `alloc` -/

/-- Another entry of the index is apart from a hole. -/
lemma Laid.slot_apart (h : Laid s (l ++ ⟨a, n, true⟩ :: r)) (hb : b ∈ s.slots) (hne : b ≠ a) :
    b + 20 ≤ a ∨ a + n ≤ b := by
  refine (h.hole_apart ?_).2
  have hmem := h.index.perm.mem_iff.mp hb
  simp only [holes_append, holes_cons_hole, List.mem_append, List.mem_cons] at hmem ⊢
  tauto

/-- A growth keeps the order if the new size of the hole that ends the heap fits in its place. -/
lemma Laid.retried_sorted (h : Laid s cs) (hsorted : SortedIndex s) (hr : Retried P ns pageAlign s t)
    (hns20 : 20 ≤ ns) (hns : ns < 2 ^ 32) (hnext : s.heap.nextEnd ns < 2 ^ 32)
    (hends : s.slots = [] ∨ Ends s)
    (hfits : ∀ a ∈ s.slots, a + s.sizeAt a = s.heap.endAddress →
      KeyFits s s.slots a (s.heap.nextEnd ns - a)) : SortedIndex t := by
  rcases h.grown hr hns20 hns hnext hends with
    ⟨more, -, -, hslots, -⟩ | ⟨l, a, n, more, rfl, hnew, hlaid, hslots, hbytes⟩
  · rw [SortedIndex, hslots]
    exact List.pairwise_singleton _ _
  · obtain ⟨-, -, hr', -, -, hv⟩ := h.around
    simp only [tiles_nil] at hr'
    have hread : s.sizeAt a = n := hv.size
    have hread' : t.sizeAt a = n + more := (hlaid.valid ⟨a, n + more, true⟩ (by simp)).size
    have hslot : a ∈ s.slots := h.index.perm.mem_iff.mpr (by simp)
    have hkey := hfits a hslot (by omega)
    rw [← hnew, Nat.add_sub_cancel_left] at hkey
    refine hsorted.rekey (by rw [hslots]) (by rw [hslots]; exact hkey) hread' fun b hb hne => ?_
    rw [hslots] at hb
    have hapart := h.slot_apart hb hne
    have hstop := h.slot_bounds hb
    exact read32_congr fun x _ hx => hbytes x (by omega)

/-- The hole in front of an aligned block has the place of the hole that was found. -/
lemma Laid.front_sorted (h : Laid s (l ++ ⟨pos, n, true⟩ :: r)) (hsorted : SortedIndex s) {f : ℕ}
    (hf : 20 ≤ f) (hfn : f ≤ n) (hkey : KeyFits s s.slots pos f) {s₁ : Kheap π}
    (hs₁ : s₁ = { s with mem := writeChunks s.mem [⟨pos, f, true⟩] }) :
    s₁.slots = s.slots ∧ SortedIndex s₁ := by
  obtain ⟨-, -, -, hlo, hhi, -⟩ := h.around
  simp only at hlo hhi
  have htop := h.placed.top
  have htiled : Tiled pos [⟨pos, f, true⟩] (pos + f) := ⟨rfl, hf, rfl⟩
  have hslots : s₁.slots = s.slots := by
    rw [hs₁]
    exact slots_writeChunks h.placed h.index.fits htiled hlo
  refine ⟨hslots, hsorted.rekey (by rw [hslots]) (by rw [hslots]; exact hkey) ?_ fun c hc hne => ?_⟩
  · rw [hs₁]
    exact (valid_writeChunks (e := 0) htiled (by omega) _ (List.mem_singleton_self _)).size
  · rw [hslots] at hc
    have hapart := h.slot_apart hc hne
    rw [hs₁]
    exact read32_congr fun x _ _ => writeChunks_byte htiled (by omega)

/-- An aligned block keeps the order if the size of the hole in front of it fits in its place. -/
lemma place_aligned_sorted (h : Laid s (l ++ ⟨pos, n, true⟩ :: r)) (hsorted : SortedIndex s)
    (hpos : s.heap.word s.mem i = pos) (hfront : pos % 0x1000 ≤ 0xFE0)
    (hfit : frontSize pos + (size + 20) = n ∨ frontSize pos + (size + 20) + 20 ≤ n)
    (hroom : frontSize pos + (size + 20) ≠ n → s.heap.size < s.heap.maxSize)
    (hkey : KeyFits s s.slots pos (frontSize pos))
    (hs' : s.place size (size + 20) true i = (p, s')) : SortedIndex s' := by
  obtain ⟨-, -, -, hlo, hhi, -⟩ := h.around
  simp only at hlo hhi
  obtain ⟨hread, hlarge, htop⟩ := h.hole_bounds
  obtain ⟨f, hf⟩ : ∃ f, frontSize pos = f := ⟨_, rfl⟩
  have hfdef : f = 0xFF4 - pos % 0x1000 := hf.symm
  obtain ⟨-, rfl⟩ := place_aligned_parts hpos hread hfront (by omega) hlarge htop hf hs'
  rw [hf] at hfit hroom hkey
  obtain ⟨s₁, hs₁⟩ : ∃ s₁ : Kheap π, s₁ = { s with mem := writeChunks s.mem [⟨pos, f, true⟩] } :=
    ⟨_, rfl⟩
  obtain ⟨hslots₁, hsorted₁⟩ := h.front_sorted hsorted (by omega) (by omega) hkey hs₁
  have hheap₁ : s₁.heap = s.heap := by rw [hs₁]
  have hplaced₁ : s₁.heap.Placed := by rw [hheap₁]; exact h.placed
  have hfits₁ : s₁.heap.size ≤ s₁.heap.maxSize := by rw [hheap₁]; exact h.index.fits
  have hlo₁ : s₁.heap.startAddress ≤ pos + f := by rw [hheap₁]; omega
  have hhi₁ : pos + f + (n - f) ≤ s₁.heap.endAddress := by rw [hheap₁]; omega
  -- the block and what is left behind it
  have hk : size + 20 = n - f ∨ size + 20 + 20 ≤ n - f := by omega
  have hwritten : SortedIndex
      { s₁ with mem := writeChunks s₁.mem (cut (pos + f) (size + 20) (n - f)) } := by
    refine hsorted₁.writeChunks hplaced₁ hfits₁ (cut_tiled (by omega) hk) hlo₁ fun c hc => ?_
    rw [hslots₁] at hc
    by_cases hne : c = pos
    · omega
    · have hapart := h.slot_apart hc hne
      omega
  rw [← hs₁]
  refine hwritten.cut hplaced₁ rfl hk hlo₁ hhi₁ (fun hne => ?_) fun c hc => ?_
  · rw [hheap₁]
    exact hroom (by omega)
  · rw [hslots₁] at hc
    rw [hheap₁]
    exact (h.slot_bounds hc).1

/-- The heaps that the calls of `alloc` see are sorted. -/
lemma Laid.seen_sorted (h : Laid s cs) (hsep : Separated cs) (hsorted : SortedIndex s)
    (hsafe : AllocSafe P s size pageAlign) (horder : AllocOrder P s size pageAlign)
    (hseen : Seen P (size + 20) pageAlign s t) : SortedIndex t := by
  induction hseen with
  | refl => exact hsorted
  | tail hseen hstep ih =>
      obtain ⟨cs₁, hlaid₁, -, -⟩ := h.seen hsep hsafe hseen
      obtain ⟨hnext, hends⟩ := hsafe.grows _ _ hseen hstep
      exact hlaid₁.retried_sorted ih hstep (by omega) hsafe.small hnext hends
        (horder.grows _ _ hseen hstep)

/-- **`alloc` keeps the order**, and takes a smallest hole. -/
lemma Laid.alloc_sorted (h : Laid s cs) (hsep : Separated cs) (hsorted : SortedIndex s)
    (hsafe : AllocSafe P s size pageAlign) (horder : AllocOrder P s size pageAlign)
    (hok : s.alloc P size pageAlign = .ok (p, s')) :
    SortedIndex s' ∧ (pageAlign = false → TakesBest P s size p) := by
  obtain ⟨t, i, hseen, hfind, hplace⟩ := allocCalls_retries hok
  have hadd : add32 size 20 = size + 20 := add32_of_lt hsafe.small
  rw [hadd] at hseen hfind hplace
  obtain ⟨cs₁, hlaid, -, -⟩ := h.seen hsep hsafe hseen
  have hsorted₁ := h.seen_sorted hsep hsorted hsafe horder hseen
  obtain ⟨hi, hfits⟩ := findSmallestHole_some hfind
  obtain ⟨l, n, r, rfl⟩ := hlaid.hole_of_slot hi
  obtain ⟨-, -, -, -, -, hv⟩ := hlaid.around
  have hread : t.sizeAt (t.heap.word t.mem i) = n := hv.size
  cases pageAlign with
  | false =>
      have hsize : size + 20 ≤ n := by
        have hread' : read32 t.mem (t.heap.word t.mem i + 8) = n := hread
        simpa [fitsHole, hread'] using hfits
      have hsorted' := place_unaligned_sorted hlaid hsorted₁ hi rfl hsize
      rw [hplace] at hsorted'
      obtain ⟨rfl, -, -⟩ := place_unaligned hlaid hi rfl hsize hplace
      refine ⟨hsorted', fun _ => ⟨t, i, hadd ▸ hseen, hadd ▸ hfind, rfl, ?_⟩⟩
      rw [Nat.add_sub_cancel]
      exact hsorted₁.takes_best hfind
  | true =>
      obtain ⟨hfront, hrear⟩ := hsafe.room rfl t i hseen hfind
      rw [hread] at hrear
      refine ⟨?_, by simp⟩
      exact place_aligned_sorted hlaid hsorted₁ rfl hfront (hrear.imp_right And.left)
        (fun hne => (hrear.resolve_left hne).2) (horder.front rfl t i hseen hfind) hplace

/-! ### `free` -/

/-- The entries of the index without that of the hole on the right. -/
lemma slots_without (right : ℕ) (hsub : t.slots.Sublist s.slots) (hout : k ≠ 0 → right ∉ t.slots)
    (hin : k ≠ 0 → right ∈ s.slots) (hcount : t.heap.size + (if k = 0 then 0 else 1) = s.heap.size) :
    t.slots = s.slots.filter fun x => ¬ (k ≠ 0 ∧ x = right) := by
  have hlength : t.slots.length = t.heap.size := Heap.length_slots
  have hlength' : s.slots.length = s.heap.size := Heap.length_slots
  have hkept : t.slots.filter (fun x => ¬ (k ≠ 0 ∧ x = right)) = t.slots := by
    refine List.filter_eq_self.mpr fun x hx => decide_eq_true ?_
    rintro ⟨hk, rfl⟩
    exact hout hk hx
  have hfiltered := hsub.filter fun x => ¬ (k ≠ 0 ∧ x = right)
  rw [hkept] at hfiltered
  refine hfiltered.eq_of_length_le ?_
  split_ifs at hcount with hk
  · have hle := List.length_filter_le (fun x => ¬ (k ≠ 0 ∧ x = right)) s.slots
    omega
  · have hlt : (s.slots.filter fun x => ¬ (k ≠ 0 ∧ x = right)).length < s.slots.length :=
      List.length_filter_lt_length_iff_exists.mpr ⟨right, hin hk, by simp [hk]⟩
    omega

/-- `free` at the end keeps the order if the size of what is left fits in the place of the hole on the
left. -/
lemma Neighbours.free_last_sorted (h : Neighbours s l [] b m n k) (hsorted : SortedIndex s)
    (hok : s.free P (b + m + 12) = .ok s') (hlow : b + 20 ≤ s.heap.startAddress + heapMinSize)
    (htop : s.heap.startAddress + heapMinSize < 2 ^ 32)
    (hroom : m = 0 → k = 0 → s.heap.size < s.heap.maxSize)
    (hfirst : l = [] → m = 0 → Kheap.leftHole (markedMem s b) b = none)
    (hfits : m ≠ 0 → KeyFits s (s.slots.filter fun x => ¬ (k ≠ 0 ∧ x = b + m + n)) b
      (s.heap.startAddress + heapMinSize - b)) : SortedIndex s' := by
  obtain ⟨t, e, rfl, he, hheap, hcount, -, hshaped⟩ := h.shrunk hfirst hok
  obtain ⟨hl, hn, -⟩ := h.tiled
  have hlo := hl.le
  rw [roundContract_min (by omega), add32_of_lt htop] at he
  obtain ⟨hshaped', hbelow, hsub⟩ := hshaped (by omega)
  have hslots := slots_without (b + m + n) hsub (fun hk hmem => ?_) (fun hk => ?_) hcount
  · refine h.entry_sorted hsorted hshaped'.placed (by rw [hheap]) hsub hshaped'.index (fun c hc => ?_)
      (hshaped'.valid ⟨b, e - b, true⟩ (by simp)).size (fun hm => ?_) fun hm => ?_
    · rw [holes_nil, List.append_nil] at hc
      obtain ⟨d, hd, -, rfl⟩ := mem_holes.mp hc
      have hd' := hl.bounds hd
      exact read32_congr fun x _ _ => hbelow x (by omega) (by omega)
    · have hfits' := h.laid.index.fits
      rw [hheap]
      simp only
      split_ifs at hcount with hk
      · have := hroom hm hk
        omega
      · omega
    · rw [hslots, he]
      exact hfits hm
  · rcases List.mem_append.mp (hshaped'.index.perm.mem_iff.mp hmem) with hkept | hother
    · rw [keptEntry] at hkept
      split_ifs at hkept
      · exact absurd hkept (by simp)
      · have := List.mem_singleton.mp hkept
        omega
    · have := (h.outside hother).2
      omega
  · refine h.laid.index.perm.mem_iff.mpr ?_
    rw [holes_neighbours]
    simp [keptEntry, hk]

/-- **`free` keeps the order.** -/
lemma Laid.free_sorted (h : Laid s cs) (hsep : Separated cs) (hsorted : SortedIndex s)
    (hc : ⟨a, n, false⟩ ∈ cs) (hsafe : FreeSafe s a) (horder : FreeOrder s a)
    (hok : s.free P (a + 12) = .ok s') : SortedIndex s' := by
  obtain ⟨l, r, b, m, k, rfl, rfl, hnb⟩ := h.exists_neighbours hsep hc
  obtain ⟨hfirst, hroom, hright, hlast⟩ := hsafe.neighbours hnb hok
  have hfound := hnb.rightHole_of_free hfirst hok
  obtain ⟨hstart, hend⟩ := hnb.merged_eq hfirst hfound
  rw [FreeOrder, hnb.leftHole_eq hfirst, hstart, hend, hnb.sizes.1, hfound] at horder
  cases r with
  | nil =>
      obtain ⟨hlow, htop⟩ := hlast rfl
      refine hnb.free_last_sorted hsorted hok hlow htop hroom hfirst fun hm => ?_
      have hfits := horder (by rw [if_neg hm]; simp)
      rw [if_pos (hnb.end_iff.mpr rfl)] at hfits
      convert hfits using 3
      split_ifs with hk <;> simp [hk, eq_comm]
  | cons d r =>
      obtain rfl := hright (by simp)
      refine hnb.free_interior_sorted P (by simp) (fun hm => hroom hm rfl) hfirst (fun hm => ?_) hsorted hok
      have hfits := horder (by rw [if_neg hm]; simp)
      rw [if_neg (fun heq => absurd (hnb.end_iff.mp heq) (by simp)), Nat.add_zero,
        Nat.add_sub_cancel_left] at hfits
      simpa using hfits

/-! ### Whole runs -/

/-- The same chunks in two heaps with the same entries. -/
lemma SortedIndex.of_laid (hsorted : SortedIndex s) (h : Laid s cs) (h' : Laid s' cs)
    (hslots : s'.slots = s.slots) : SortedIndex s' := by
  refine hsorted.congr (by rw [hslots]) fun a ha => ?_
  obtain ⟨c, hc, -, rfl⟩ := mem_holes.mp (h'.index.perm.mem_iff.mp ha)
  exact (h'.valid c hc).size.trans (h.valid c hc).size.symm

namespace HeapClients

/-- The action gives a hole that has an entry in the index only a size that fits in its place. -/
def KeepsOrder (P : Pager π) (t : HeapClients π) : HeapAction → Prop
  | .alloc size pageAlign => AllocOrder P t.heap size pageAlign
  | .free p => FreeOrder t.heap (p - 12)
  | .write _ _ => True

/-- The index is sorted afterwards, and an unaligned block is taken from a smallest hole. -/
def SortsIndex (P : Pager π) (t : HeapClients π) (c : HeapAction) : Prop :=
  (∀ t', t.step? P c = some t' → SortedIndex t'.heap) ∧
    ∀ size p s', c = .alloc size false → t.heap.alloc P size false = .ok (p, s') →
      TakesBest P t.heap size p

variable {t : HeapClients π} {c : HeapAction}

/-- A write in a payload keeps the order. -/
lemma Owned.write_sorted {t' : HeapClients π} {addr : ℕ} {v : UInt8} (h : Owned t cs)
    (hsorted : SortedIndex t.heap) (hp : ∃ b ∈ t.held, b.Has addr)
    (hstep : t.step? P (.write addr v) = some t') : SortedIndex t'.heap := by
  have howned := h.write hp hstep
  obtain ⟨b, hb, hlo, -⟩ := hp
  have hinside := (h.isolated.inside b hb).1
  have hindex := h.laid.placed.index
  have hfits := h.laid.index.fits
  obtain rfl := Option.some.inj hstep
  refine hsorted.of_laid h.laid howned.laid ?_
  change t.heap.heap.slots (write8 t.heap.mem addr v) = t.heap.heap.slots t.heap.mem
  exact Heap.slots_congr fun x _ hx => write8_byte (by omega)

/-- **One action** keeps the order, and takes a smallest hole. -/
lemma Owned.step_sorted (h : Owned t cs) (hsorted : SortedIndex t.heap) (hproper : t.Proper c)
    (hsafe : t.Safe P c) (horder : t.KeepsOrder P c) : t.SortsIndex P c := by
  cases c with
  | alloc size pageAlign =>
      refine ⟨fun t' hstep => ?_, ?_⟩
      · obtain ⟨p, s, halloc, rfl⟩ := step?_alloc_some hstep
        exact (h.laid.alloc_sorted h.separated hsorted hsafe horder halloc).1
      · rintro size' p s hc halloc
        obtain ⟨rfl, rfl⟩ := HeapAction.alloc.inj hc
        exact (h.laid.alloc_sorted h.separated hsorted hsafe horder halloc).2 rfl
  | free p =>
      refine ⟨fun t' hstep => ?_, fun size p s hc => HeapAction.noConfusion hc⟩
      obtain ⟨b, hb, rfl⟩ := hproper
      obtain ⟨hp, k, hk, -⟩ := h.block b hb
      obtain ⟨s, hfree, rfl⟩ := step?_free_some hstep
      rw [← Nat.sub_add_cancel hp] at hfree
      exact h.laid.free_sorted h.separated hsorted hk hsafe horder hfree
  | write addr v =>
      exact ⟨fun t' hstep => h.write_sorted hsorted hproper hstep,
        fun size p s hc => HeapAction.noConfusion hc⟩

end HeapClients

end Matanos
