import Mathlib.Tactic
import Mathlib.Order.CompletePartialOrder

/-!
Pieces of an order that are taken one above the other, as an allocator does that only moves up.

* `Stacked`: each piece starts at or above the end of the one before it;
* `Stacked.above`, `Stacked.pairwise`: so it does for all pieces before it;
* `Stacked.disjoint`: the half-open intervals of the pieces have nothing in common.
-/

namespace Lib

variable {α β : Type*} [Preorder β] {lo hi : α → β}

/-- From `a` up to `b`, every piece starts at or above the end of the one before it. -/
def Stacked (lo hi : α → β) : β → List α → β → Prop
  | a, [], b => a ≤ b
  | a, c :: cs, b => a ≤ lo c ∧ lo c ≤ hi c ∧ Stacked lo hi (hi c) cs b

variable {a b : β} {cs : List α}

lemma Stacked.above (h : Stacked lo hi a cs b) : ∀ c ∈ cs, a ≤ lo c := by
  induction cs generalizing a with
  | nil => simp
  | cons c cs ih =>
      obtain ⟨hstart, hle, hrest⟩ := h
      refine List.forall_mem_cons.mpr ⟨hstart, fun d hd => ?_⟩
      exact (hstart.trans hle).trans (ih hrest d hd)

/-- **The pieces are in order.** -/
lemma Stacked.pairwise (h : Stacked lo hi a cs b) : cs.Pairwise fun c d => hi c ≤ lo d := by
  induction cs generalizing a with
  | nil => exact List.Pairwise.nil
  | cons c cs ih => exact List.pairwise_cons.mpr ⟨h.2.2.above, ih h.2.2⟩

/-- **The pieces have nothing in common.** -/
lemma Stacked.disjoint (h : Stacked lo hi a cs b) :
    cs.Pairwise fun c d => Disjoint (Set.Ico (lo c) (hi c)) (Set.Ico (lo d) (hi d)) := by
  refine h.pairwise.imp fun hle => Set.disjoint_left.mpr fun x hx hx' => ?_
  exact lt_irrefl x ((hx.2.trans_le hle).trans_le hx'.1)

end Lib
