import Matanos.Heap.Bounds
import Matanos.Heap.Trim

/-!
Calls that keep the blocks of an intact heap, with requests of any kind.

* `Survive`: blocks that are kept with their bytes;
* `Ends`, `RoomAt`, `AllocSafe`: the holes at which a growth and an aligned block leave the heap
  intact; `Laid.alloc`: the heap after such a call of `alloc`;
* `mergedStart`, `mergedEnd`, `FreeSafe`: the hole that `free` makes, as the tests of `free` see it;
  `Laid.free`: the heap after such a call of `free`.
-/

namespace Matanos

open Lib

variable {π : Type*} {P : Pager π} {s s' s'' t : Kheap π} {l r mid cs cs' cs'' bs : List Chunk}
  {pageAlign : Bool} {a b n m k p i size ns : ℕ}

/-- The blocks among the chunks `bs` are among the chunks `cs'` of the second heap, with their bytes. -/
def Survive (s s' : Kheap π) (bs cs' : List Chunk) : Prop :=
  ∀ c ∈ bs, c.hole = false → c ∈ cs' ∧ AgreeOn s.mem s'.mem c.addr (c.addr + c.size)

lemma Survive.trans (h : Survive s s' bs cs') (h' : Survive s' s'' cs' cs'') :
    Survive s s'' bs cs'' := by
  intro c hc hblock
  obtain ⟨hc', hagree⟩ := h c hc hblock
  obtain ⟨hc'', hagree'⟩ := h' c hc' hblock
  exact ⟨hc'', hagree.trans hagree'⟩

/-- A change within a hole keeps the blocks. -/
lemma Laid.survive_hole (h : Laid s (l ++ ⟨a, n, true⟩ :: r)) (hw : Within s s' a (a + n)) :
    Survive s s' (l ++ ⟨a, n, true⟩ :: r) (l ++ (mid ++ r)) := by
  intro c hc hblock
  obtain ⟨hlo, -, -⟩ := h.tiled.bounds hc
  have hmem : c ∈ l ∨ c ∈ r := by
    rcases List.mem_append.mp hc with hl | hr
    · exact Or.inl hl
    · rcases List.mem_cons.mp hr with rfl | hr
      · exact absurd hblock (by simp)
      · exact Or.inr hr
  refine ⟨by simp only [List.mem_append]; tauto, hw.agree h.placed hlo ?_⟩
  obtain ⟨hl, -, hr, -, -, -⟩ := h.around
  simp only at hl hr
  rcases hmem with hmem | hmem
  · exact Or.inl (hl.bounds hmem).2.1
  · exact Or.inr (hr.bounds hmem).1

/-! ### Growing -/

/-- A hole of the index ends where the heap does. -/
def Ends (s : Kheap π) : Prop := ∃ a ∈ s.slots, a + s.sizeAt a = s.heap.endAddress

/-- The hole that ends the heap is the last chunk, and the endmost one. -/
lemma Laid.ends (h : Laid s (l ++ ⟨a, n, true⟩ :: r)) (hmax : ∀ b ∈ s.slots, b ≤ a) (he : Ends s) :
    r = [] ∧ a + n = s.heap.endAddress := by
  obtain ⟨b, hb, hend⟩ := he
  obtain ⟨-, hn, hr, -, hhi, -⟩ := h.around
  simp only at hn hr hhi
  obtain ⟨c, hc, hhole, rfl⟩ := mem_holes.mp (h.index.perm.mem_iff.mp hb)
  have hread : s.sizeAt c.addr = c.size := (h.valid c hc).size
  rw [hread] at hend
  have hle := hmax _ hb
  have hstop : a + n = s.heap.endAddress := by
    rcases h.tiled.apart hc (by simp : (⟨a, n, true⟩ : Chunk) ∈ _) with rfl | hapart | hapart
    · exact hend
    · simp only at hapart
      omega
    · simp only at hapart
      omega
  refine ⟨?_, hstop⟩
  cases r with
  | nil => rfl
  | cons d r =>
      obtain ⟨-, hd, hrest⟩ := hr
      have := hrest.le
      omega

/-- **What a growth leaves** when there is no hole, or one ends the heap: the new bytes are a hole, or are
added to that one. -/
lemma Laid.grown (h : Laid s cs) (hr : Retried P ns pageAlign s t) (hns20 : 20 ≤ ns)
    (hns : ns < 2 ^ 32) (hnext : s.heap.nextEnd ns < 2 ^ 32) (hends : s.slots = [] ∨ Ends s) :
    (∃ more, holes cs = [] ∧ Laid t (cs ++ [⟨s.heap.endAddress, more, true⟩]) ∧
        t.slots = [s.heap.endAddress] ∧
        ∀ x, s.heap.startAddress ≤ x → x < s.heap.endAddress → t.mem x = s.mem x) ∨
      ∃ l a n more, cs = l ++ [⟨a, n, true⟩] ∧ a + (n + more) = s.heap.nextEnd ns ∧
        Laid t (l ++ [⟨a, n + more, true⟩]) ∧ t.slots = s.slots ∧ ∀ x < a + 8, t.mem x = s.mem x := by
  obtain ⟨s₁, more, hmem, hheap, hmore, hnew, -, rfl⟩ :=
    hr.grown h.placed.top h.tiled.le hns hnext
  by_cases hnil : holes cs = []
  · have hempty : s.slots = [] := by
      have hperm := h.index.perm
      rw [hnil] at hperm
      exact hperm.eq_nil
    rw [hempty]
    exact Or.inl ⟨more, hnil, appendHole_laid h hnil hmem hheap (by omega) (by omega)⟩
  · obtain ⟨idx, a, n, l, r, hidx, hword, rfl, hmax⟩ := h.endmost hnil
    have hslot : a ∈ s.slots := h.index.perm.mem_iff.mpr (by simp)
    have he : Ends s := hends.resolve_left (List.ne_nil_of_mem hslot)
    obtain ⟨rfl, hstop⟩ := h.ends hmax he
    obtain ⟨-, hn, -, hlo, -, hv⟩ := h.around
    simp only at hn hlo
    have hread : s.sizeAt a = n := hv.size
    have hsum : a + (n + more) < 2 ^ 32 := by omega
    rw [hidx]
    obtain ⟨-, hbyte, hslots, -, -, -⟩ :=
      extendHole_spec h hword hread hlo hmem hheap (by omega) hsum
    exact Or.inr ⟨l, a, n, more, rfl, by omega, extendHole_laid h hword hmem hheap (by omega), hslots,
      fun x hx => hbyte x (Or.inl hx)⟩

/-- **A growth keeps the blocks**, then. -/
lemma Laid.retried (h : Laid s cs) (hsep : Separated cs) (hr : Retried P ns pageAlign s t)
    (hns20 : 20 ≤ ns) (hns : ns < 2 ^ 32) (hnext : s.heap.nextEnd ns < 2 ^ 32)
    (hends : s.slots = [] ∨ Ends s) :
    ∃ cs', Laid t cs' ∧ Separated cs' ∧ Survive s t cs cs' := by
  rcases h.grown hr hns20 hns hnext hends with
    ⟨more, hnil, hlaid, -, hbytes⟩ | ⟨l, a, n, more, rfl, -, hlaid, -, hbytes⟩
  · refine ⟨_, hlaid, ?_, fun c hc _ => ⟨List.mem_append_left _ hc, fun x hx hx' => ?_⟩⟩
    · refine List.isChain_append.mpr ⟨hsep, List.isChain_singleton _, fun c hc d _ hhole => ?_⟩
      rw [no_hole_of_holes_nil hnil (List.mem_of_mem_getLast? hc)] at hhole
      exact absurd hhole (by simp)
    · obtain ⟨hlo, hhi, -⟩ := h.tiled.bounds hc
      exact hbytes x (by omega) (by omega)
  · obtain ⟨hl, -, -, -, -, -⟩ := h.around
    simp only at hl
    refine ⟨_, hlaid, ?_, fun c hc hblock => ?_⟩
    · obtain ⟨hsl, -, hlast⟩ := List.isChain_append.mp hsep
      refine List.isChain_append.mpr ⟨hsl, List.isChain_singleton _, fun c hc d hd hhole => ?_⟩
      have := hlast c hc ⟨a, n, true⟩ rfl hhole
      exact absurd this (by simp)
    · rcases List.mem_append.mp hc with hmeml | hmemr
      · have hbounds := hl.bounds hmeml
        exact ⟨List.mem_append_left _ hmeml, fun x _ hx => hbytes x (by omega)⟩
      · rw [List.mem_singleton.mp hmemr] at hblock
        exact absurd hblock (by simp)

/-! ### The block -/

/-- The hole that is found for an aligned block has room for a hole in front, and for nothing or a hole
behind, which gets an entry of the index. -/
def RoomAt (s : Kheap π) (size i : ℕ) : Prop :=
  s.heap.word s.mem i % 0x1000 ≤ 0xFE0 ∧
    (frontSize (s.heap.word s.mem i) + (size + 20) = s.sizeAt (s.heap.word s.mem i) ∨
      frontSize (s.heap.word s.mem i) + (size + 20) + 20 ≤ s.sizeAt (s.heap.word s.mem i) ∧
        s.heap.size < s.heap.maxSize)

/-- The heap is intact after a call that returned the new block at `p`, and all blocks are kept. -/
structure Allots (s s' : Kheap π) (cs cs' : List Chunk) (p size : ℕ) : Prop where
  laid : Laid s' cs'
  separated : Separated cs'
  survive : Survive s s' cs cs'
  pointer : 12 ≤ p
  block : ∃ k, ⟨p - 12, k, false⟩ ∈ cs' ∧ size + 20 ≤ k
  fresh : ∀ c ∈ cs, c.hole = false → c.addr ≠ p - 12

/-- A block is apart from a hole. -/
lemma Laid.block_ne (h : Laid s (l ++ ⟨a, n, true⟩ :: r)) {c : Chunk}
    (hc : c ∈ l ++ ⟨a, n, true⟩ :: r) (hblock : c.hole = false) {q : ℕ} (hlo : a ≤ q) (hhi : q < a + n) :
    c.addr ≠ q := by
  rcases h.tiled.apart hc (by simp : (⟨a, n, true⟩ : Chunk) ∈ _) with rfl | hapart | hapart
  · exact absurd hblock (by simp)
  · have := (h.tiled.bounds hc).2.2
    simp only at hapart
    omega
  · simp only at hapart
    omega

/-- A hole, a block and perhaps another hole in place of a hole separate as before. -/
lemma Separated.cut_aligned {q f : ℕ} (h : Separated (l ++ ⟨a, n, true⟩ :: r)) :
    Separated (l ++ (([⟨a, f, true⟩] ++ Matanos.cut q ns k) ++ r)) := by
  have hcut : Separated ([] ++ (Matanos.cut q ns k ++ r)) := by
    refine Separated.cut (l := []) (n := k) (?_ : Separated ([] ++ ⟨q, k, true⟩ :: r))
    obtain ⟨-, hr, -⟩ := List.isChain_append.mp h
    exact List.isChain_cons.mpr (List.isChain_cons.mp hr)
  rw [List.append_assoc, List.singleton_append]
  obtain ⟨hl, -, hlast⟩ := List.isChain_append.mp h
  refine List.isChain_append.mpr ⟨hl, List.isChain_cons.mpr ⟨fun d hd _ => ?_, hcut⟩, fun c hc d hd => ?_⟩
  · rw [Matanos.cut, List.cons_append, List.head?_cons, Option.mem_some_iff] at hd
    rw [← hd]
  · rw [List.head?_cons, Option.mem_some_iff] at hd
    rw [← hd]
    exact hlast c hc ⟨a, n, true⟩ rfl

/-- **A hole that is found** becomes the block and what is left. -/
lemma Laid.place_allots (h : Laid s cs) (hsep : Separated cs)
    (hfind : s.findSmallestHole (size + 20) pageAlign = some i)
    (hroom : pageAlign = true → RoomAt s size i)
    (hplace : s.place size (size + 20) pageAlign i = (p, s')) : ∃ cs', Allots s s' cs cs' p size := by
  obtain ⟨hi, hfits⟩ := findSmallestHole_some hfind
  obtain ⟨l, n, r, rfl⟩ := h.hole_of_slot hi
  obtain ⟨a, ha⟩ : ∃ a, s.heap.word s.mem i = a := ⟨_, rfl⟩
  rw [RoomAt, ha] at hroom
  rw [ha] at h hsep hfits ⊢
  obtain ⟨-, hn, -, hlo, hhi, hv⟩ := h.around
  simp only at hn hhi
  have hread : s.sizeAt a = n := hv.size
  rw [hread] at hroom
  cases pageAlign with
  | false =>
      have hsize : size + 20 ≤ n := by
        have hread' : read32 s.mem (a + 8) = n := hread
        simpa [fitsHole, hread'] using hfits
      obtain ⟨rfl, hw, hlaid⟩ := place_unaligned h hi ha hsize hplace
      obtain ⟨hle, hcases⟩ := fit_cases hsize
      refine ⟨_, hlaid, hsep.cut, h.survive_hole hw, by omega, ⟨fit (size + 20) n, ?_, hle⟩, ?_⟩
      · rw [Nat.add_sub_cancel, cut]
        simp
      · intro c hc hblock
        exact h.block_ne hc hblock (by omega) (by omega)
  | true =>
      obtain ⟨hfront, hrear⟩ := hroom rfl
      obtain ⟨rfl, hw, hlaid⟩ := place_aligned h ha hfront (hrear.imp_right And.left)
        (fun hne => (hrear.resolve_left hne).2) hplace
      refine ⟨_, hlaid, hsep.cut_aligned, h.survive_hole hw, by omega, ⟨size + 20, ?_, le_rfl⟩, ?_⟩
      · rw [Nat.add_sub_cancel, cut]
        simp
      · intro c hc hblock
        exact h.block_ne hc hblock (by omega) (by omega)

/-! ### `alloc` -/

/-- The request does not wrap. A growth of the heap neither wraps, and some hole ends the heap unless there
is none. An aligned block has room where it is placed. -/
structure AllocSafe (P : Pager π) (s : Kheap π) (size : ℕ) (pageAlign : Bool) : Prop where
  small : size + 20 < 2 ^ 32
  grows : ∀ t t', Seen P (size + 20) pageAlign s t → Retried P (size + 20) pageAlign t t' →
    t.heap.nextEnd (size + 20) < 2 ^ 32 ∧ (t.slots = [] ∨ Ends t)
  room : pageAlign = true → ∀ t i, Seen P (size + 20) pageAlign s t →
    t.findSmallestHole (size + 20) pageAlign = some i → RoomAt t size i

/-- A hole that is found at once. -/
lemma allocSafe_of_found (hsize : size + 20 < 2 ^ 32)
    (hfind : s.findSmallestHole (size + 20) pageAlign = some i)
    (hroom : pageAlign = true → RoomAt s size i) : AllocSafe P s size pageAlign where
  small := hsize
  grows t t' hseen hstep := by
    obtain rfl := hseen.of_found hfind
    exact absurd (hstep.1.symm.trans hfind) (by simp)
  room halign t j hseen hfound := by
    obtain rfl := hseen.of_found hfind
    obtain rfl : j = i := Option.some.inj (hfound.symm.trans hfind)
    exact hroom halign

/-- The heaps that the calls of `alloc` see. -/
lemma Laid.seen (h : Laid s cs) (hsep : Separated cs) (hsafe : AllocSafe P s size pageAlign)
    (hseen : Seen P (size + 20) pageAlign s t) :
    ∃ cs', Laid t cs' ∧ Separated cs' ∧ Survive s t cs cs' := by
  induction hseen with
  | refl => exact ⟨cs, h, hsep, fun c hc _ => ⟨hc, fun _ _ _ => rfl⟩⟩
  | tail hseen hstep ih =>
      obtain ⟨cs₁, hlaid₁, hsep₁, hsurvive₁⟩ := ih
      obtain ⟨hnext, hends⟩ := hsafe.grows _ _ hseen hstep
      obtain ⟨cs₂, hlaid₂, hsep₂, hsurvive₂⟩ := hlaid₁.retried hsep₁ hstep (by omega) hsafe.small hnext hends
      exact ⟨cs₂, hlaid₂, hsep₂, hsurvive₁.trans hsurvive₂⟩

/-- **`alloc` keeps the blocks**, and returns a new one. -/
lemma Laid.alloc (h : Laid s cs) (hsep : Separated cs) (hsafe : AllocSafe P s size pageAlign)
    (hok : s.alloc P size pageAlign = .ok (p, s')) : ∃ cs', Allots s s' cs cs' p size := by
  obtain ⟨t, i, hseen, hfind, hplace⟩ := allocCalls_retries hok
  rw [add32_of_lt hsafe.small] at hseen hfind hplace
  obtain ⟨cs₁, hlaid₁, hsep₁, hsurvive₁⟩ := h.seen hsep hsafe hseen
  obtain ⟨cs₂, hallots⟩ := hlaid₁.place_allots hsep₁ hfind (fun halign => hsafe.room halign t i hseen hfind)
    hplace
  refine ⟨cs₂, hallots.laid, hallots.separated, hsurvive₁.trans hallots.survive, hallots.pointer,
    hallots.block, fun c hc hblock => hallots.fresh c (hsurvive₁ c hc hblock).1 hblock⟩

/-! ### `free` -/

/-- Where the hole starts that `free` makes of the block at `a`. -/
def mergedStart (s : Kheap π) (a : ℕ) : ℕ := (Kheap.leftHole (markedMem s a) a).getD a

/-- Where it ends. -/
def mergedEnd (s : Kheap π) (a : ℕ) : ℕ :=
  match Kheap.rightHole s.mem (a + s.sizeAt a - 8) with
  | some right => right + s.sizeAt right
  | none => a + s.sizeAt a

/-- The first block has nothing like the footer of a hole in front of it. The index has room where no
hole is next to the block. A hole on the right ends the heap, and a merged hole that ends the heap starts
20 bytes or more below its least size. -/
structure FreeSafe (s : Kheap π) (a : ℕ) : Prop where
  first : a = s.heap.startAddress → Kheap.leftHole (markedMem s a) a = none
  room : Kheap.leftHole (markedMem s a) a = none →
    Kheap.rightHole s.mem (a + s.sizeAt a - 8) = none → s.heap.size < s.heap.maxSize
  right : Kheap.rightHole s.mem (a + s.sizeAt a - 8) ≠ none → a + s.sizeAt a ≠ s.heap.endAddress →
    mergedEnd s a = s.heap.endAddress
  last : mergedEnd s a = s.heap.endAddress →
    mergedStart s a + 20 ≤ s.heap.startAddress + heapMinSize ∧
      s.heap.startAddress + heapMinSize < 2 ^ 32

/-- What the test for a hole on the left finds. -/
lemma Neighbours.leftHole_eq (h : Neighbours s l r b m n k)
    (hfirst : l = [] → m = 0 → Kheap.leftHole (markedMem s b) b = none) :
    Kheap.leftHole (markedMem s (b + m)) (b + m) = if m = 0 then none else some b := by
  have hlaid := h.laid
  rw [← List.append_assoc] at hlaid
  obtain ⟨s₁, hs₁⟩ : ∃ s₁ : Kheap π, s₁ = { s with mem := write8 s.mem (b + m + 4) 1 } := ⟨_, rfl⟩
  obtain ⟨hmarked, -⟩ := hlaid.shaped.mark hs₁
  have hmem : s₁.mem = markedMem s (b + m) := by
    rw [hs₁]
    rfl
  rw [List.append_assoc] at hmarked
  rw [← hmem]
  by_cases hm : m = 0
  · subst hm
    rw [if_pos rfl, Nat.add_zero]
    rw [holeAt_zero, List.nil_append, Nat.add_zero] at hmarked
    rcases List.eq_nil_or_concat l with rfl | ⟨l', c, rfl⟩
    · rw [hmem]
      exact hfirst rfl rfl
    · have hblock := h.left c (by simp)
      rw [List.concat_eq_append, List.append_assoc, List.singleton_append] at hmarked
      have htest := hmarked.leftHole_eq
      rwa [hblock, if_neg Bool.false_ne_true] at htest
  · rw [if_neg hm]
    rw [holeAt_of_ne hm, List.singleton_append] at hmarked
    exact hmarked.leftHole_eq

/-- What the test for a hole on the right finds, in front of another chunk. -/
lemma Neighbours.rightHole_eq (h : Neighbours s l r b m n k) (hlast : r ≠ [] ∨ k ≠ 0) :
    Kheap.rightHole s.mem (b + m + n - 8) = if k = 0 then none else some (b + m + n) := by
  have hlaid := h.laid
  rw [← List.append_assoc] at hlaid
  have hshaped := hlaid.shaped
  by_cases hk : k = 0
  · subst hk
    rw [if_pos rfl]
    rw [holeAt_zero, List.nil_append] at hshaped
    cases r with
    | nil => exact absurd hlast (by simp)
    | cons d r =>
        have htest := hshaped.rightHole_eq
        rwa [h.right d (by simp), if_neg Bool.false_ne_true] at htest
  · rw [if_neg hk]
    rw [holeAt_of_ne hk, List.singleton_append] at hshaped
    exact hshaped.rightHole_eq

/-- In a call that returns the test finds nothing behind the end of the heap. -/
lemma Neighbours.rightHole_of_free (h : Neighbours s l r b m n k)
    (hfirst : l = [] → m = 0 → Kheap.leftHole (markedMem s b) b = none)
    (hok : s.free P (b + m + 12) = .ok s') :
    Kheap.rightHole s.mem (b + m + n - 8) = if k = 0 then none else some (b + m + n) := by
  by_cases hother : r ≠ [] ∨ k ≠ 0
  · exact h.rightHole_eq hother
  · rw [not_or, not_not, not_not] at hother
    obtain ⟨rfl, rfl⟩ := hother
    exact h.last_none hfirst hok

/-- The sizes in the headers. -/
lemma Neighbours.sizes (h : Neighbours s l r b m n k) :
    s.sizeAt (b + m) = n ∧ (k ≠ 0 → s.sizeAt (b + m + n) = k) :=
  ⟨(h.laid.valid ⟨b + m, n, false⟩ (by simp)).size,
    fun hk => (h.laid.valid ⟨b + m + n, k, true⟩ (by simp [holeAt_of_ne hk])).size⟩

/-- The hole that `free` makes is the block with the holes next to it. -/
lemma Neighbours.merged_eq (h : Neighbours s l r b m n k)
    (hfirst : l = [] → m = 0 → Kheap.leftHole (markedMem s b) b = none)
    (hfound : Kheap.rightHole s.mem (b + m + n - 8) = if k = 0 then none else some (b + m + n)) :
    mergedStart s (b + m) = b ∧ mergedEnd s (b + m) = b + (m + n + k) := by
  obtain ⟨hread, hreadk⟩ := h.sizes
  constructor
  · rw [mergedStart, h.leftHole_eq hfirst]
    split_ifs with hm
    · rw [hm]
      rfl
    · rfl
  · rw [mergedEnd, hread, hfound]
    split_ifs with hk
    · simp only
      omega
    · simp only [hreadk hk]
      omega

/-- It ends the heap when no other chunk follows, and only then. -/
lemma Neighbours.end_iff (h : Neighbours s l r b m n k) :
    b + (m + n + k) = s.heap.endAddress ↔ r = [] := by
  obtain ⟨-, -, hr⟩ := h.tiled
  cases r with
  | nil => exact iff_of_true hr rfl
  | cons d r =>
      obtain ⟨-, hd, htail⟩ := hr
      have := htail.le
      exact iff_of_false (by omega) (by simp)

/-- What a safe call says about the block and the holes next to it. -/
lemma FreeSafe.neighbours (hsafe : FreeSafe s (b + m)) (h : Neighbours s l r b m n k)
    (hok : s.free P (b + m + 12) = .ok s') :
    (l = [] → m = 0 → Kheap.leftHole (markedMem s b) b = none) ∧
      (m = 0 → k = 0 → s.heap.size < s.heap.maxSize) ∧ (r ≠ [] → k = 0) ∧
      (r = [] → b + 20 ≤ s.heap.startAddress + heapMinSize ∧
        s.heap.startAddress + heapMinSize < 2 ^ 32) := by
  obtain ⟨hl, hn, hr⟩ := h.tiled
  have hfirst : l = [] → m = 0 → Kheap.leftHole (markedMem s b) b = none := by
    rintro rfl rfl
    exact hsafe.first hl.symm
  have hfound := h.rightHole_of_free hfirst hok
  obtain ⟨hstart, hend⟩ := h.merged_eq hfirst hfound
  obtain ⟨-, hroom, hright, hlast⟩ := hsafe
  rw [h.sizes.1, hfound] at hroom hright
  rw [h.leftHole_eq hfirst] at hroom
  rw [hend, h.end_iff] at hright hlast
  rw [hstart] at hlast
  refine ⟨hfirst, fun hm hk => hroom (if_pos hm) (if_pos hk), fun hne => ?_, hlast⟩
  by_contra hk
  rw [if_neg hk] at hright
  have hle := hr.le
  exact hne (hright (by simp) (by omega))

/-- Such a call is safe, when the block or a hole behind it does not end the heap. -/
lemma Neighbours.freeSafe (h : Neighbours s l r b m n k) (hother : r ≠ [] ∨ k ≠ 0)
    (hfirst : l = [] → m = 0 → Kheap.leftHole (markedMem s b) b = none)
    (hroom : m = 0 → k = 0 → s.heap.size < s.heap.maxSize) (hright : r ≠ [] → k = 0)
    (hlast : r = [] → b + 20 ≤ s.heap.startAddress + heapMinSize ∧
      s.heap.startAddress + heapMinSize < 2 ^ 32) : FreeSafe s (b + m) := by
  obtain ⟨hl, -, -⟩ := h.tiled
  have hleft := h.leftHole_eq hfirst
  have hfound := h.rightHole_eq hother
  obtain ⟨hstart, hend⟩ := h.merged_eq hfirst hfound
  refine ⟨fun hb => ?_, fun hnone hnone' => ?_, fun hsome _ => ?_, fun hstop => ?_⟩
  · rw [hleft]
    split_ifs with hm
    · rfl
    · have := hl.le
      omega
  · rw [hleft] at hnone
    rw [h.sizes.1, hfound] at hnone'
    exact hroom (by by_contra hm; simp [hm] at hnone) (by by_contra hk; simp [hk] at hnone')
  · rw [h.sizes.1, hfound] at hsome
    have hk : k ≠ 0 := fun hk => hsome (if_pos hk)
    rw [hend, h.end_iff]
    by_contra hne
    exact hk (hright hne)
  · rw [hend, h.end_iff] at hstop
    rw [hstart]
    exact hlast hstop

/-- **`free` keeps the other blocks.** -/
lemma Laid.free (h : Laid s cs) (hsep : Separated cs) (hc : ⟨a, n, false⟩ ∈ cs) (hsafe : FreeSafe s a)
    (hok : s.free P (a + 12) = .ok s') :
    ∃ cs', Laid s' cs' ∧ Separated cs' ∧ Survive s s' (cs.filter (·.addr ≠ a)) cs' := by
  obtain ⟨l, r, b, m, k, rfl, rfl, hnb⟩ := h.exists_neighbours hsep hc
  obtain ⟨hfirst, hroom, hright, hlast⟩ := hsafe.neighbours hnb hok
  have hsep' := hnb.separated hsep
  obtain ⟨hl, -, hr⟩ := hnb.tiled
  -- the other blocks are outside the merged hole
  have hout : ∀ c ∈ l ++ (holeAt b m ++ ⟨b + m, n, false⟩ :: (holeAt (b + m + n) k ++ r)),
      c.hole = false → c.addr ≠ b + m → c ∈ l ∨ c ∈ r := by
    intro c hc hblock hne
    simp only [List.mem_append, List.mem_cons, holeAt] at hc
    rcases hc with hc | hc | rfl | hc | hc
    · exact Or.inl hc
    · split_ifs at hc
      · exact absurd hc (by simp)
      · rw [List.mem_singleton.mp hc] at hblock
        exact absurd hblock (by simp)
    · exact absurd rfl hne
    · split_ifs at hc
      · exact absurd hc (by simp)
      · rw [List.mem_singleton.mp hc] at hblock
        exact absurd hblock (by simp)
    · exact Or.inr hc
  cases r with
  | nil =>
      obtain ⟨hlow, htop⟩ := hlast rfl
      obtain ⟨e, -, -, hlaid', hbytes⟩ := hnb.free_last hok hlow htop hroom hfirst
      refine ⟨_, hlaid', ?_, fun c hc hblock => ?_⟩
      · obtain ⟨hsepl, -, -⟩ := List.isChain_append.mp hsep'
        refine List.isChain_append.mpr ⟨hsepl, List.isChain_singleton _, fun c hc d _ hhole => ?_⟩
        rw [hnb.left c hc] at hhole
        exact absurd hhole (by simp)
      · obtain ⟨hc, hne⟩ := List.mem_filter.mp hc
        have hcl := (hout c hc hblock (by simpa using hne)).resolve_right (by simp)
        obtain ⟨h1, h2, -⟩ := hl.bounds hcl
        exact ⟨List.mem_append_left _ hcl, fun x hx hx' => hbytes x (by omega) (by omega)⟩
  | cons d r =>
      obtain rfl := hright (by simp)
      obtain ⟨s₁, hs₁, hlaid', hw⟩ := hnb.free_interior P (by simp) (fun hm => hroom hm rfl) hfirst
      obtain rfl : s₁ = s' := Except.ok.inj (hs₁.symm.trans hok)
      refine ⟨_, hlaid', hsep', fun c hc hblock => ?_⟩
      obtain ⟨hc, hne⟩ := List.mem_filter.mp hc
      obtain ⟨hlo, -, -⟩ := hnb.laid.tiled.bounds hc
      have hmem := hout c hc hblock (by simpa using hne)
      rcases hmem with hmem | hmem
      · exact ⟨List.mem_append_left _ hmem,
          hw.agree hnb.laid.placed hlo (Or.inl (hl.bounds hmem).2.1)⟩
      · exact ⟨List.mem_append_right _ (List.mem_cons_of_mem _ hmem),
          hw.agree hnb.laid.placed hlo (Or.inr (hr.bounds hmem).1)⟩

end Matanos
