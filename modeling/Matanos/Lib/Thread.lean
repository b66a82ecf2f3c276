import Mathlib.Tactic

/-!
Singly linked lists threaded through a `next` field, with `0` for the null pointer.

* `Seg next p l q`: following `next` from `p` visits exactly the nodes `l`, none of them
  null, and arrives at `q`; `IsList next p l` is the null-terminated case. `seg_append`
  cuts a segment, `Seg.congr` moves it to a memory that agrees on its nodes, and
  `Seg.update_last` redirects its last node.
* `IsList.nodup`: a null-terminated list is acyclic; `IsList.unique`: it is determined by
  its head.
* `seek next x`: the loop `while (p->next != x) p = p->next`, which with `x` null walks to
  the tail and otherwise finds the predecessor of `x`. `seek_eq` is its specification.
-/

namespace Lib

variable {P : Type*} [Zero P] {next next' : P → P} {p q r x y v : P} {l l' : List P}

/-- Following `next` from `p` visits exactly the nodes `l` and arrives at `q`. -/
def Seg (next : P → P) : P → List P → P → Prop
  | p, [], q => p = q
  | p, x :: xs, q => p = x ∧ x ≠ 0 ∧ Seg next (next x) xs q

/-- The null-terminated list with head pointer `p` and nodes `l`. -/
def IsList (next : P → P) (p : P) (l : List P) : Prop := Seg next p l 0

@[simp] lemma seg_nil : Seg next p [] q ↔ p = q := Iff.rfl

lemma seg_cons : Seg next p (x :: l) q ↔ p = x ∧ x ≠ 0 ∧ Seg next (next x) l q := Iff.rfl

@[simp] lemma isList_nil : IsList next p [] ↔ p = 0 := Iff.rfl

/-- A segment is cut anywhere. -/
lemma seg_append : Seg next p (l ++ l') q ↔ ∃ m, Seg next p l m ∧ Seg next m l' q := by
  induction l generalizing p with
  | nil => simp
  | cons x xs ih =>
      simp only [List.cons_append, seg_cons, ih]
      constructor
      · rintro ⟨hp, hx, m, h, h'⟩
        exact ⟨m, ⟨hp, hx, h⟩, h'⟩
      · rintro ⟨m, ⟨hp, hx, h⟩, h'⟩
        exact ⟨hp, hx, m, h, h'⟩

/-- Cutting just before a node: the first part arrives at that node. -/
lemma seg_append_cons :
    Seg next p (l ++ x :: l') q ↔ Seg next p l x ∧ x ≠ 0 ∧ Seg next (next x) l' q := by
  rw [seg_append]
  constructor
  · rintro ⟨m, h, rfl, hx, h'⟩
    exact ⟨h, hx, h'⟩
  · rintro ⟨h, hx, h'⟩
    exact ⟨x, h, rfl, hx, h'⟩

lemma isList_append_cons :
    IsList next p (l ++ x :: l') ↔ Seg next p l x ∧ x ≠ 0 ∧ IsList next (next x) l' :=
  seg_append_cons

/-- The last node of a segment is the one that points at its end. -/
lemma seg_concat : Seg next p (l ++ [x]) q ↔ Seg next p l x ∧ x ≠ 0 ∧ next x = q := by
  rw [seg_append_cons, seg_nil]

/-- A segment lives in every memory that agrees on its nodes. -/
lemma Seg.congr (h : Seg next p l q) (hag : ∀ x ∈ l, next' x = next x) : Seg next' p l q := by
  induction l generalizing p with
  | nil => exact h
  | cons x xs ih =>
      obtain ⟨hp, hx, hrest⟩ := h
      refine ⟨hp, hx, ?_⟩
      rw [hag x (by simp)]
      exact ih hrest fun y hy => hag y (by simp [hy])

lemma Seg.ne_zero (h : Seg next p l q) : ∀ x ∈ l, x ≠ 0 := by
  induction l generalizing p with
  | nil => simp
  | cons x xs ih =>
      intro y hy
      rcases List.mem_cons.mp hy with rfl | hy
      · exact h.2.1
      · exact ih h.2.2 y hy

/-- A null-terminated list is determined by its head. -/
theorem IsList.unique (h : IsList next p l) (h' : IsList next p l') : l = l' := by
  induction l generalizing p l' with
  | nil =>
      cases l' with
      | nil => rfl
      | cons y ys => exact absurd (h'.1.symm.trans h) h'.2.1
  | cons x xs ih =>
      cases l' with
      | nil => exact absurd (h.1.symm.trans h') h.2.1
      | cons y ys =>
          obtain ⟨rfl, _, hxs⟩ := h
          obtain ⟨rfl, _, hys⟩ := h'
          rw [ih hxs hys]

/-- A null-terminated list is acyclic: a node met twice would start two different lists. -/
theorem IsList.nodup (h : IsList next p l) : l.Nodup := by
  induction l generalizing p with
  | nil => exact List.nodup_nil
  | cons x xs ih =>
      refine List.nodup_cons.mpr ⟨fun hx => ?_, ih h.2.2⟩
      obtain ⟨as, bs, rfl⟩ := List.append_of_mem hx
      have hlate : IsList next x (x :: bs) := (isList_append_cons.mp h.2.2).2
        |> fun ⟨hne, hbs⟩ => ⟨rfl, hne, hbs⟩
      have hearly : IsList next x (x :: (as ++ x :: bs)) := ⟨rfl, h.2.1, h.2.2⟩
      have hlen := congrArg List.length (hlate.unique hearly)
      simp at hlen
      omega

section Update

variable [DecidableEq P]

lemma Seg.update_of_notMem (h : Seg next p l q) (hy : y ∉ l) :
    Seg (Function.update next y v) p l q := by
  refine h.congr fun x hx => Function.update_of_ne ?_ _ _
  rintro rfl
  exact hy hx

/-- Redirecting the last node of a segment moves its end. -/
lemma Seg.update_last (h : Seg next p (l ++ [y]) q) (hy : y ∉ l) :
    Seg (Function.update next y v) p (l ++ [y]) v := by
  obtain ⟨hl, hne, _⟩ := seg_concat.mp h
  exact seg_concat.mpr ⟨hl.update_of_notMem hy, hne, Function.update_self ..⟩

end Update

section Seek

variable [DecidableEq P] {n : ℕ}

/-- The loop `while (p->next != x) p = p->next`, for at most `n` steps; `none` when it has
not ended by then or is about to read through the null pointer. -/
def seek (next : P → P) (x : P) : ℕ → P → Option P
  | 0, p => if p = 0 then none else if next p = x then some p else none
  | n + 1, p => if p = 0 then none else if next p = x then some p else seek next x n (next p)

/-- The loop ends at the last node of a segment that leads to `x` and meets `x` nowhere
before. -/
lemma seek_eq (h : Seg next p (l ++ [y]) x) (hx : x ∉ (l ++ [y]).tail) (hn : l.length ≤ n) :
    seek next x n p = some y := by
  induction l generalizing p n with
  | nil =>
      obtain ⟨rfl, hne, hnext⟩ := h
      cases n <;> simp [seek, hne, show next p = x from hnext]
  | cons z zs ih =>
      obtain ⟨rfl, hne, hrest⟩ := h
      obtain ⟨n, rfl⟩ : ∃ m, n = m + 1 := ⟨n - 1, by simp at hn; omega⟩
      have hstop : next p ≠ x := by
        rintro rfl
        cases zs with
        | nil => exact hx (by simp [hrest.1])
        | cons w ws => exact hx (by simp [hrest.1])
      have hx' : x ∉ (zs ++ [y]).tail := fun hm => hx (List.mem_of_mem_tail hm)
      simp [seek, hne, hstop, ih hrest hx' (by simpa using hn)]

/-- Seeking the null pointer finds the tail of a list. -/
lemma seek_tail (h : IsList next p (l ++ [y])) (hn : l.length ≤ n) :
    seek next 0 n p = some y :=
  seek_eq h (fun hm => h.ne_zero 0 (List.mem_of_mem_tail hm) rfl) hn

end Seek

end Lib
