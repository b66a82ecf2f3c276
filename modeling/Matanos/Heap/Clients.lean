import Matanos.Lib.Run
import Matanos.Heap.Survive

/-!
The heap with its clients: whole runs of `alloc`, `free` and writes to the blocks.

* `HeapClients`, `HeapAction`, `step?`: the blocks that clients hold, and what they do; an action
  that asserts, or does not return, has no result;
* `Proper`: clients free what they hold, and write inside their payloads;
* `Owned`: the heap is intact, and the blocks that are held are blocks of it; `Owned.step`: a proper
  and safe action keeps that, and the payloads;
* `heap_isolates_blocks`: whole runs.
-/

namespace Matanos

open Lib

/-- A block that a client holds: the pointer, and the size that was asked for. -/
structure Held where
  pointer : ℕ
  size : ℕ
deriving DecidableEq

/-- The address is in the payload. -/
def Held.Has (b : Held) (x : ℕ) : Prop := b.pointer ≤ x ∧ x < b.pointer + b.size

/-- The heap, and the blocks that clients hold. -/
structure HeapClients (π : Type*) where
  heap : Kheap π
  held : List Held

/-- What a client does. -/
inductive HeapAction
  | alloc (size : ℕ) (pageAlign : Bool)
  | free (p : ℕ)
  | write (addr : ℕ) (v : UInt8)

/-- It is a call of `alloc` or `free`. -/
def HeapAction.isCall : HeapAction → Bool
  | .write _ _ => false
  | _ => true

namespace HeapClients

variable {π : Type*} (P : Pager π)

/-- One action, if it returns. -/
def step? (t : HeapClients π) : HeapAction → Option (HeapClients π)
  | .alloc size pageAlign =>
      (t.heap.alloc P size pageAlign).toOption.map fun (p, s) => ⟨s, ⟨p, size⟩ :: t.held⟩
  | .free p => (t.heap.free P p).toOption.map fun s => ⟨s, t.held.filter (·.pointer ≠ p)⟩
  | .write addr v => some ⟨{ t.heap with mem := write8 t.heap.mem addr v }, t.held⟩

/-- Clients free a block that they hold, and write in the payload of one. -/
def Proper (t : HeapClients π) : HeapAction → Prop
  | .alloc size _ => size < 2 ^ 32
  | .free p => ∃ b ∈ t.held, b.pointer = p
  | .write addr _ => ∃ b ∈ t.held, b.Has addr

/-- The action takes none of the branches that break the layout of the heap. -/
def Safe (t : HeapClients π) : HeapAction → Prop
  | .alloc size pageAlign => AllocSafe P t.heap size pageAlign
  | .free p => FreeSafe t.heap (p - 12)
  | .write _ _ => True

/-- The payloads are pairwise disjoint, and lie in the heap. -/
structure Isolated (t : HeapClients π) : Prop where
  disjoint : t.held.Pairwise fun b c => ∀ x, b.Has x → ¬ c.Has x
  inside : ∀ b ∈ t.held, t.heap.heap.startAddress ≤ b.pointer ∧
    b.pointer + b.size ≤ t.heap.heap.endAddress

/-- The payloads of the blocks that are held before and after are the same. -/
def SamePayloads (t t' : HeapClients π) : Prop :=
  ∀ b ∈ t.held, b ∈ t'.held → ∀ x, b.Has x → t'.heap.mem x = t.heap.mem x

/-- The payloads are disjoint and in the heap afterwards, and `alloc` and `free` write to none. -/
def Isolates (t : HeapClients π) (c : HeapAction) : Prop :=
  ∀ t', t.step? P c = some t' → t'.Isolated ∧ (c.isCall = true → t.SamePayloads t')

/-! ### The invariant -/

/-- The heap is intact, with the chunks `cs`, and the blocks that are held are some of them. -/
structure Owned (t : HeapClients π) (cs : List Chunk) : Prop where
  laid : Laid t.heap cs
  separated : Separated cs
  nodup : (t.held.map Held.pointer).Nodup
  block : ∀ b ∈ t.held, 12 ≤ b.pointer ∧ ∃ k, ⟨b.pointer - 12, k, false⟩ ∈ cs ∧ b.size + 20 ≤ k

variable {P} {t t' : HeapClients π} {cs : List Chunk}

/-- In an intact heap the payloads are disjoint. -/
lemma Owned.isolated (h : Owned t cs) : t.Isolated := by
  refine ⟨?_, fun b hb => ?_⟩
  · refine (List.pairwise_map.mp h.nodup).imp_of_mem fun {b c} hb hc hne x hbx hcx => ?_
    obtain ⟨hpb, k, hkb, hsizeb⟩ := h.block b hb
    obtain ⟨hpc, n, hnc, hsizec⟩ := h.block c hc
    obtain ⟨hb1, hb2⟩ := hbx
    obtain ⟨hc1, hc2⟩ := hcx
    rcases h.laid.tiled.apart hkb hnc with heq | hapart | hapart
    · have haddr := (Chunk.mk.inj heq).1
      omega
    · simp only at hapart
      omega
    · simp only at hapart
      omega
  · obtain ⟨hp, k, hk, hsize⟩ := h.block b hb
    obtain ⟨hlo, hhi, -⟩ := h.laid.tiled.bounds hk
    simp only at hlo hhi
    omega

/-- A block of the chunks that survive keeps its payload. -/
lemma Owned.same_payload (h : Owned t cs) {b : Held} (hb : b ∈ t.held) {s : Kheap π}
    {bs cs' : List Chunk} (hsurvive : Survive t.heap s bs cs')
    (hkept : ∀ k, (⟨b.pointer - 12, k, false⟩ : Chunk) ∈ cs → ⟨b.pointer - 12, k, false⟩ ∈ bs) :
    (∃ k, ⟨b.pointer - 12, k, false⟩ ∈ cs' ∧ b.size + 20 ≤ k) ∧
      ∀ x, b.Has x → s.mem x = t.heap.mem x := by
  obtain ⟨hp, k, hk, hsize⟩ := h.block b hb
  obtain ⟨hk', hagree⟩ := hsurvive _ (hkept k hk) rfl
  simp only at hagree
  exact ⟨⟨k, hk', hsize⟩, fun x hx => hagree x (by have := hx.1; omega) (by have := hx.2; omega)⟩

/-- What a step with `alloc` has done. -/
lemma step?_alloc_some {size : ℕ} {pageAlign : Bool} (h : t.step? P (.alloc size pageAlign) = some t') :
    ∃ p s, t.heap.alloc P size pageAlign = .ok (p, s) ∧ t' = ⟨s, ⟨p, size⟩ :: t.held⟩ := by
  rw [step?] at h
  cases halloc : t.heap.alloc P size pageAlign with
  | error e =>
      rw [halloc] at h
      exact absurd h (by simp [Except.toOption])
  | ok res =>
      rw [halloc] at h
      exact ⟨res.1, res.2, rfl, (Option.some.inj h).symm⟩

/-- What a step with `free` has done. -/
lemma step?_free_some {p : ℕ} (h : t.step? P (.free p) = some t') :
    ∃ s, t.heap.free P p = .ok s ∧ t' = ⟨s, t.held.filter (·.pointer ≠ p)⟩ := by
  rw [step?] at h
  cases hfree : t.heap.free P p with
  | error e =>
      rw [hfree] at h
      exact absurd h (by simp [Except.toOption])
  | ok s =>
      rw [hfree] at h
      exact ⟨s, rfl, (Option.some.inj h).symm⟩

/-- `alloc` hands out a new block. -/
lemma Owned.alloc (h : Owned t cs) {size : ℕ} {pageAlign : Bool}
    (hsafe : AllocSafe P t.heap size pageAlign) (hstep : t.step? P (.alloc size pageAlign) = some t') :
    ∃ cs', Owned t' cs' ∧ t.SamePayloads t' := by
  obtain ⟨p, s, halloc, rfl⟩ := step?_alloc_some hstep
  obtain ⟨cs', hallots⟩ := h.laid.alloc h.separated hsafe halloc
  have hkept : ∀ b ∈ t.held, (∃ k, ⟨b.pointer - 12, k, false⟩ ∈ cs' ∧ b.size + 20 ≤ k) ∧
      ∀ x, b.Has x → s.mem x = t.heap.mem x := fun b hb =>
    h.same_payload hb hallots.survive fun _ hk => hk
  refine ⟨cs', ⟨hallots.laid, hallots.separated, ?_, fun b hb => ?_⟩, fun b hb _ => (hkept b hb).2⟩
  · rw [List.map_cons, List.nodup_cons]
    refine ⟨fun hmem => ?_, h.nodup⟩
    obtain ⟨b, hb, hpointer⟩ := List.mem_map.mp hmem
    obtain ⟨-, k, hk, -⟩ := h.block b hb
    exact hallots.fresh _ hk rfl (by rw [hpointer])
  · rcases List.mem_cons.mp hb with rfl | hb
    · exact ⟨hallots.pointer, hallots.block⟩
    · exact ⟨(h.block b hb).1, (hkept b hb).1⟩

/-- `free` takes one back. -/
lemma Owned.free (h : Owned t cs) {p : ℕ} (hp : ∃ b ∈ t.held, b.pointer = p)
    (hsafe : FreeSafe t.heap (p - 12)) (hstep : t.step? P (.free p) = some t') :
    ∃ cs', Owned t' cs' ∧ t.SamePayloads t' := by
  obtain ⟨b₀, hb₀, rfl⟩ := hp
  obtain ⟨hp₀, k₀, hk₀, -⟩ := h.block b₀ hb₀
  obtain ⟨s, hfree, rfl⟩ := step?_free_some hstep
  rw [← Nat.sub_add_cancel hp₀] at hfree
  obtain ⟨cs', hlaid, hsep, hsurvive⟩ := h.laid.free h.separated hk₀ hsafe hfree
  have hkept : ∀ b ∈ t.held, b.pointer ≠ b₀.pointer →
      (∃ k, ⟨b.pointer - 12, k, false⟩ ∈ cs' ∧ b.size + 20 ≤ k) ∧
      ∀ x, b.Has x → s.mem x = t.heap.mem x := fun b hb hne => by
    have hb12 := (h.block b hb).1
    refine h.same_payload hb hsurvive fun k hk => ?_
    exact List.mem_filter.mpr ⟨hk, by simp only [ne_eq, decide_eq_true_eq]; omega⟩
  refine ⟨cs', ⟨hlaid, hsep, ?_, fun b hb => ?_⟩, fun b hb hb' => ?_⟩
  · exact h.nodup.sublist (List.filter_sublist.map _)
  · obtain ⟨hb, hne⟩ := List.mem_filter.mp hb
    exact ⟨(h.block b hb).1, (hkept b hb (by simpa using hne)).1⟩
  · exact (hkept b hb (by simpa using (List.mem_filter.mp hb').2)).2

/-- A write in a payload leaves the heap intact. -/
lemma Owned.write (h : Owned t cs) {addr : ℕ} {v : UInt8} (hp : ∃ b ∈ t.held, b.Has addr)
    (hstep : t.step? P (.write addr v) = some t') : Owned t' cs := by
  obtain ⟨b, hb, h1, h2⟩ := hp
  obtain ⟨hp, k, hk, hsize⟩ := h.block b hb
  obtain ⟨l, r, hcs⟩ := List.append_of_mem hk
  obtain rfl := Option.some.inj hstep
  have hlaid := h.laid
  rw [hcs] at hlaid
  refine ⟨?_, h.separated, h.nodup, h.block⟩
  rw [hcs]
  exact hlaid.payload fun x hx => write8_byte (by omega)

/-- **One action** keeps the invariant, and the payloads. -/
lemma Owned.step (h : Owned t cs) {c : HeapAction} (hproper : t.Proper c) (hsafe : t.Safe P c)
    (hstep : t.step? P c = some t') :
    (∃ cs', Owned t' cs') ∧ (c.isCall = true → t.SamePayloads t') := by
  cases c with
  | alloc size pageAlign =>
      obtain ⟨cs', howned, hsame⟩ := h.alloc hsafe hstep
      exact ⟨⟨cs', howned⟩, fun _ => hsame⟩
  | free p =>
      obtain ⟨cs', howned, hsame⟩ := h.free hproper hsafe hstep
      exact ⟨⟨cs', howned⟩, fun _ => hsame⟩
  | write addr v => exact ⟨⟨cs, h.write hproper hstep⟩, by simp [HeapAction.isCall]⟩

/-- The heap at the start. -/
lemma owned_start {start endAddr max : ℕ} {supervisor readonly : Bool} {mem : Bytes} {pages : π}
    {s₀ : Kheap π} (hcreate : Kheap.createHeap start endAddr max supervisor readonly mem pages = .ok s₀)
    (hroom : start + 0x80000 < endAddr) (htop : endAddr < 2 ^ 32) :
    ∃ cs, Owned (⟨s₀, []⟩ : HeapClients π) cs ∧ SortedIndex s₀ := by
  have haligned : start % 0x1000 = 0 ∧ endAddr % 0x1000 = 0 := by
    rw [Kheap.createHeap] at hcreate
    split_ifs at hcreate with haligned
    exact haligned
  obtain ⟨s, hs, hlaid, hsorted, -⟩ := createHeap_laid start endAddr max supervisor readonly mem pages
    haligned.1 haligned.2 hroom htop
  obtain rfl := Except.ok.inj (hs.symm.trans hcreate)
  exact ⟨_, ⟨hlaid, List.isChain_singleton _, List.nodup_nil, by simp⟩, hsorted⟩

/-- **From `create_heap` on**, actions that take none of the branches that break the layout keep the payloads
disjoint and in the heap, and no `alloc` or `free` writes to one. -/
theorem heap_isolates_blocks {π : Type*} (P : Pager π) {start endAddr max : ℕ}
    {supervisor readonly : Bool} {mem : Bytes} {pages : π} {s₀ : Kheap π} {actions : List HeapAction}
    (hcreate : Kheap.createHeap start endAddr max supervisor readonly mem pages = .ok s₀)
    (hroom : start + 0x80000 < endAddr) (htop : endAddr < 2 ^ 32)
    (hproper : Along (step? P) Proper ⟨s₀, []⟩ actions) (hsafe : Along (step? P) (Safe P) ⟨s₀, []⟩ actions) :
    Isolated ⟨s₀, []⟩ ∧ Along (step? P) (Isolates P) ⟨s₀, []⟩ actions := by
  obtain ⟨cs, hstart, -⟩ := owned_start hcreate hroom htop
  have himp : ∀ (t : HeapClients π) c, (∃ cs, Owned t cs) → t.Proper c ∧ t.Safe P c → t.Isolates P c := by
    rintro t c ⟨cs, h⟩ ⟨hproper, hsafe⟩ t' hstep
    obtain ⟨⟨cs', howned⟩, hsame⟩ := h.step hproper hsafe hstep
    exact ⟨howned.isolated, hsame⟩
  have hkeep : ∀ (t : HeapClients π) c t', (∃ cs, Owned t cs) → t.Proper c ∧ t.Safe P c →
      t.step? P c = some t' → ∃ cs', Owned t' cs' := by
    rintro t c t' ⟨cs, h⟩ ⟨hproper, hsafe⟩ hstep
    exact (h.step hproper hsafe hstep).1
  exact ⟨hstart.isolated, along_mono himp hkeep ⟨cs, hstart⟩ (along_and hproper hsafe)⟩

/-! ### Two runs -/

lemma step?_alloc {s s' : Kheap π} {held : List Held} {size p : ℕ} {pageAlign : Bool}
    (h : s.alloc P size pageAlign = .ok (p, s')) :
    step? P ⟨s, held⟩ (.alloc size pageAlign) = some ⟨s', ⟨p, size⟩ :: held⟩ := by
  rw [step?, h]
  rfl

lemma step?_free {s s' : Kheap π} {held : List Held} {p : ℕ} (h : s.free P p = .ok s') :
    step? P ⟨s, held⟩ (.free p) = some ⟨s', held.filter (·.pointer ≠ p)⟩ := by
  rw [step?, h]
  rfl

/-- Two blocks at the start, each in a hole that is found at once; the second one is freed. -/
lemma two_blocks : ∃ s₀ s₁ s₂ s₃ : Kheap Unit,
    Kheap.createHeap 0xC0000000 0xC0100000 0xCFFFF000 false false (fun _ => 0) () = .ok s₀ ∧
      ((∃ i, s₀.findSmallestHole (100 + 20) false = some i) ∧
        s₀.alloc .idle 100 false = .ok (0xC008000C, s₁)) ∧
      ((∃ i, s₁.findSmallestHole (100 + 20) false = some i) ∧
        s₁.alloc .idle 100 false = .ok (0xC0080084, s₂)) ∧
      (FreeSafe s₂ 0xC0080078 ∧ Kheap.leftHole (markedMem s₂ 0xC0080078) 0xC0080078 = none) ∧
      s₂.free .idle 0xC0080084 = .ok s₃ := by
  obtain ⟨s₀, hs₀, hlaid₀, -, hheap₀, hslots₀⟩ := createHeap_laid 0xC0000000 0xC0100000 0xCFFFF000
    false false (fun _ => 0) () (by decide) (by decide) (by decide) (by decide)
  obtain ⟨s₁, hs₁, hlaid₁, hslots₁, hheap₁⟩ :=
    alloc_last .idle 100 (l := []) hlaid₀ hslots₀ (by decide)
  obtain ⟨s₂, hs₂, hlaid₂, hslots₂, hheap₂⟩ := alloc_last .idle 100
    (l := [⟨0xC0080000, 120, false⟩]) hlaid₁ hslots₁ (by decide)
  have hfound : ∀ {s : Kheap Unit} {a n : ℕ} {l : List Chunk}, Laid s (l ++ [⟨a, n, true⟩]) →
      s.slots = [a] → 120 ≤ n → ∃ i, s.findSmallestHole (100 + 20) false = some i := by
    intro s a n l hlaid hslots hn
    have hread : s.sizeAt a = n := (hlaid.valid ⟨a, n, true⟩ (by simp)).size
    exact exists_findSmallestHole (by rw [hslots]; exact List.mem_singleton_self _) (by omega)
  have h : Neighbours s₂ [⟨0xC0080000, 120, false⟩] [] 0xC0080078 0 120 0x7FF10 :=
    ⟨hlaid₂, by simp, by simp⟩
  obtain ⟨s₃, hs₃⟩ := h.free_last_returns (P := .idle) (by simp) (by simp) free_idle
  have hstart : s₂.heap.startAddress = 0xC0080000 := hlaid₂.tiled.1.symm
  have hsafe : FreeSafe s₂ (0xC0080078 + 0) := by
    refine h.freeSafe (by simp) (by simp) (by simp) (by simp) fun _ => ?_
    rw [hstart]
    decide
  exact ⟨s₀, s₁, s₂, s₃, hs₀, ⟨hfound (l := []) hlaid₀ hslots₀ (by decide), hs₁⟩,
    ⟨hfound (l := [⟨0xC0080000, 120, false⟩]) hlaid₁ hslots₁ (by decide), hs₂⟩,
    ⟨hsafe, h.leftHole_eq (by simp)⟩, hs₃⟩

/-- The two blocks, the second one freed, and a write to the first: the clients keep to the rules, and no
step breaks the layout. -/
lemma two_blocks_along {s₀ s₁ s₂ s₃ : Kheap Unit}
    (hfind₀ : ∃ i, s₀.findSmallestHole (100 + 20) false = some i)
    (hs₁ : s₀.alloc .idle 100 false = .ok (0xC008000C, s₁))
    (hfind₁ : ∃ i, s₁.findSmallestHole (100 + 20) false = some i)
    (hs₂ : s₁.alloc .idle 100 false = .ok (0xC0080084, s₂)) (hsafe₂ : FreeSafe s₂ 0xC0080078)
    (hs₃ : s₂.free .idle 0xC0080084 = .ok s₃) :
    Along (step? .idle) Proper ⟨s₀, []⟩
        [.alloc 100 false, .alloc 100 false, .free 0xC0080084, .write 0xC008000C 7] ∧
      Along (step? .idle) (Safe .idle) ⟨s₀, []⟩
        [.alloc 100 false, .alloc 100 false, .free 0xC0080084, .write 0xC008000C 7] := by
  obtain ⟨i₀, hi₀⟩ := hfind₀
  obtain ⟨i₁, hi₁⟩ := hfind₁
  rw [along_cons_of_eq (step?_alloc hs₁), along_cons_of_eq (step?_alloc hs₂),
    along_cons_of_eq (step?_free hs₃), along_cons_of_eq (step?_alloc hs₁),
    along_cons_of_eq (step?_alloc hs₂), along_cons_of_eq (step?_free hs₃)]
  refine ⟨⟨by simp [Proper], by simp [Proper], by simp [Proper], ?_, fun _ _ => trivial⟩, ?_⟩
  · simp [Proper, Held.Has]
  · exact ⟨allocSafe_of_found (by decide) hi₀ (by simp), allocSafe_of_found (by decide) hi₁ (by simp),
      hsafe₂, trivial, fun _ _ => trivial⟩

/-- Two blocks, of which the second is freed before a write to the first. -/
theorem heap_isolates_blocks_two :
    ∃ s₀ : Kheap Unit,
      Kheap.createHeap 0xC0000000 0xC0100000 0xCFFFF000 false false (fun _ => 0) () = .ok s₀ ∧
      Isolated ⟨s₀, []⟩ ∧ Along (step? .idle) (Isolates .idle) ⟨s₀, []⟩
        [.alloc 100 false, .alloc 100 false, .free 0xC0080084, .write 0xC008000C 7] := by
  obtain ⟨s₀, s₁, s₂, s₃, hs₀, ⟨hfind₀, hs₁⟩, ⟨hfind₁, hs₂⟩, ⟨hsafe₂, -⟩, hs₃⟩ := two_blocks
  obtain ⟨hproper, hsafe⟩ := two_blocks_along hfind₀ hs₁ hfind₁ hs₂ hsafe₂ hs₃
  exact ⟨s₀, hs₀, heap_isolates_blocks .idle hs₀ (by decide) (by decide) hproper hsafe⟩

/-- A page that takes all but the front of the heap, and then a block that does not fit there: it is
handed out over the page. -/
theorem heap_hands_out_page_twice :
    ∃ (s₀ : Kheap Unit) (t : HeapClients Unit),
      Kheap.createHeap 0xC0000000 0xC0100000 0xCFFFF000 false false (fun _ => 0) () = .ok s₀ ∧
      Along (step? .idle) Proper ⟨s₀, []⟩ [.alloc 0x7EFF8 true, .alloc 0x2000 false] ∧
      run (step? .idle) ⟨s₀, []⟩ [.alloc 0x7EFF8 true, .alloc 0x2000 false] = some t ∧
      ¬ t.Isolated := by
  obtain ⟨s₀, s₁, hs₀, hs₁, hlaid₁, hgrows⟩ := page_fills_heap
  obtain ⟨a, n, l, r, s₂, hcs, -, -, hs₂⟩ := hgrows.pointer hlaid₁ (by decide) (by simp)
  have ha : a = 0xC0080000 := by
    have hmem : (⟨a, n, true⟩ : Chunk) ∈ [(⟨0xC0080000, 0xFF4, true⟩ : Chunk),
        ⟨0xC0080FF4, 0x7F00C, false⟩] := by
      rw [hcs]
      simp
    simp only [List.mem_cons, Chunk.mk.injEq, List.not_mem_nil, or_false, Bool.true_eq_false,
      and_false, and_true] at hmem
    exact hmem.1
  rw [ha] at hs₂
  refine ⟨s₀, ⟨s₂, [⟨0xC0080000 + 12, 0x2000⟩, ⟨0xC0081000, 0x7EFF8⟩]⟩, hs₀, ?_, ?_, fun h => ?_⟩
  · rw [along_cons_of_eq (step?_alloc hs₁), along_cons_of_eq (step?_alloc hs₂)]
    exact ⟨by simp [Proper], by simp [Proper], trivial⟩
  · rw [run_cons, step?_alloc hs₁, Option.bind_some, run_cons, step?_alloc hs₂]
    rfl
  · have hdisjoint := (List.pairwise_cons.mp h.disjoint).1 ⟨0xC0081000, 0x7EFF8⟩ (by simp) 0xC0081000
    exact hdisjoint (by simp [Held.Has]) (by simp [Held.Has])

end HeapClients

end Matanos
