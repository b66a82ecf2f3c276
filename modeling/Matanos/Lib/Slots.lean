import Mathlib.Data.List.Sort
import Mathlib.Tactic

/-!
The used part of an array as a list.

* `slots`: the first `n` values of an array;
* `slots_insert`, `slots_erase`: the list after values have been moved up for a new one, or down over an
  old one;
* `StrictWeakOn`: a strict weak order on some items; `pairwise_insert`: a new item in front of the first
  that is not less than it keeps a list sorted.
-/

namespace Lib

variable {α : Type*} {f g : ℕ → α} {n k : ℕ} {x : α}

/-- The first `n` values of an array. -/
def slots (f : ℕ → α) (n : ℕ) : List α := (List.range n).map f

@[simp] lemma length_slots : (slots f n).length = n := by simp [slots]

@[simp] lemma getElem_slots {i : ℕ} (hi : i < (slots f n).length) : (slots f n)[i] = f i := by
  simp [slots]

lemma getElem?_slots {i : ℕ} (hi : i < n) : (slots f n)[i]? = some (f i) := by
  rw [List.getElem?_eq_getElem (by rwa [length_slots]), getElem_slots]

lemma slots_congr (h : ∀ i < n, g i = f i) : slots g n = slots f n :=
  List.map_congr_left fun i hi => h i (List.mem_range.mp hi)

/-- The values from `k` on are moved up for a new one. -/
lemma slots_insert (hk : k ≤ n)
    (hg : ∀ j ≤ n, g j = if j < k then f j else if j = k then x else f (j - 1)) :
    slots g (n + 1) = (slots f n).take k ++ x :: (slots f n).drop k := by
  refine List.ext_getElem ?_ fun j hj hj' => ?_
  · simp only [length_slots, List.length_append, List.length_take, List.length_cons,
      List.length_drop]
    omega
  · have hlt : j ≤ n := by
      rw [length_slots] at hj
      omega
    have htake : ((slots f n).take k).length = k := by
      rw [List.length_take, length_slots, Nat.min_eq_left hk]
    rw [getElem_slots, hg j hlt]
    rcases Nat.lt_trichotomy j k with hjk | rfl | hgt
    · rw [if_pos hjk, List.getElem_append_left (by omega), List.getElem_take, getElem_slots]
    · rw [if_neg (by omega), if_pos rfl, List.getElem_append_right (by omega)]
      simp only [htake, Nat.sub_self, List.getElem_cons_zero]
    · obtain ⟨d, rfl⟩ : ∃ d, j = k + (d + 1) := ⟨j - k - 1, by omega⟩
      rw [if_neg (by omega), if_neg (by omega), List.getElem_append_right (by omega)]
      simp only [htake, Nat.add_sub_cancel_left, List.getElem_cons_succ, List.getElem_drop,
        getElem_slots]
      rfl

/-- The values behind `k` are moved down over it. -/
lemma slots_erase (hk : k < n)
    (hg : ∀ j < n, g j = if k ≤ j then f (j + 1) else f j) :
    slots g (n - 1) = (slots f n).eraseIdx k := by
  refine List.ext_getElem ?_ fun j hj hj' => ?_
  · rw [length_slots, List.length_eraseIdx, length_slots, if_pos hk]
  · have hlt : j < n - 1 := by rwa [length_slots] at hj
    rw [getElem_slots, hg j (by omega), List.getElem_eraseIdx]
    by_cases hkj : k ≤ j
    · rw [if_pos hkj, dif_neg (by omega), getElem_slots]
    · rw [if_neg hkj, dif_pos (by omega), getElem_slots]

/-! ### Sorted slots -/

/-- A strict weak order on the items of `S`. -/
structure StrictWeakOn (lt : α → α → Bool) (S : Set α) : Prop where
  irrefl : ∀ x ∈ S, lt x x = false
  trans : ∀ x ∈ S, ∀ y ∈ S, ∀ z ∈ S, lt x y = true → lt y z = true → lt x z = true
  incomp_trans : ∀ x ∈ S, ∀ y ∈ S, ∀ z ∈ S, lt x y = false → lt y x = false →
    lt y z = false → lt z y = false → lt x z = false ∧ lt z x = false

variable {lt : α → α → Bool} {S : Set α} {l : List α}

lemma strictWeakOn_lt {β : Type*} [LinearOrder β] {S : Set β} :
    StrictWeakOn (fun x y : β => decide (x < y)) S where
  irrefl x _ := decide_eq_false (lt_irrefl x)
  trans x _ y _ z _ hxy hyz := decide_eq_true (lt_trans (of_decide_eq_true hxy) (of_decide_eq_true hyz))
  incomp_trans x _ y _ z _ hxy hyx hyz hzy := by
    have h1 := not_lt.mp (of_decide_eq_false hxy)
    have h2 := not_lt.mp (of_decide_eq_false hyx)
    have h3 := not_lt.mp (of_decide_eq_false hyz)
    have h4 := not_lt.mp (of_decide_eq_false hzy)
    exact ⟨decide_eq_false (not_lt.mpr (h3.trans h1)), decide_eq_false (not_lt.mpr (h2.trans h4))⟩

lemma StrictWeakOn.asymm (h : StrictWeakOn lt S) {x y : α} (hx : x ∈ S) (hy : y ∈ S)
    (hxy : lt x y = true) : lt y x = false := by
  by_contra hyx
  rw [Bool.not_eq_false] at hyx
  have hxx := h.trans x hx y hy x hx hxy hyx
  rw [h.irrefl x hx] at hxx
  exact absurd hxx (by decide)

/-- "Not less" is transitive. -/
lemma StrictWeakOn.le_trans (h : StrictWeakOn lt S) {x y z : α} (hx : x ∈ S) (hy : y ∈ S) (hz : z ∈ S)
    (hyx : lt y x = false) (hzy : lt z y = false) : lt z x = false := by
  by_contra hzx
  rw [Bool.not_eq_false] at hzx
  cases hxy : lt x y with
  | true =>
      have hzy' := h.trans z hz x hx y hy hzx hxy
      rw [hzy] at hzy'
      exact absurd hzy' (by decide)
  | false =>
      cases hyz : lt y z with
      | true =>
          have hyx' := h.trans y hy z hz x hx hyz hzx
          rw [hyx] at hyx'
          exact absurd hyx' (by decide)
      | false =>
          have hxz := (h.incomp_trans x hx y hy z hz hxy hyx hyz hzy).2
          rw [hzx] at hxz
          exact absurd hxz (by decide)

/-- **A new item at the first place where the next one is not less** keeps a list sorted. -/
lemma pairwise_insert (h : StrictWeakOn lt S) (hl : ∀ y ∈ l, y ∈ S) (hx : x ∈ S)
    (hsorted : l.Pairwise fun a b => lt b a = false) (hk : k ≤ l.length)
    (hbefore : ∀ y ∈ l.take k, lt y x = true) (hat : ∀ hlt : k < l.length, lt l[k] x = false) :
    (l.take k ++ x :: l.drop k).Pairwise fun a b => lt b a = false := by
  obtain ⟨hfirst, hsecond, hacross⟩ :=
    List.pairwise_append.mp ((List.take_append_drop k l).symm ▸ hsorted)
  have hrest : ∀ z ∈ l.drop k, lt z x = false := by
    intro z hz
    have hlt : k < l.length := by
      by_contra hge
      rw [List.drop_of_length_le (by omega)] at hz
      exact absurd hz (List.not_mem_nil)
    have hcons : l.drop k = l[k] :: l.drop (k + 1) := List.drop_eq_getElem_cons hlt
    rw [hcons] at hz hsecond
    have hy := hat hlt
    rcases List.mem_cons.mp hz with rfl | hz'
    · exact hy
    · have hle := (List.pairwise_cons.mp hsecond).1 z hz'
      exact h.le_trans hx (hl _ (List.getElem_mem hlt)) (hl z (List.mem_of_mem_drop hz')) hy hle
  refine List.pairwise_append.mpr ⟨hfirst, List.pairwise_cons.mpr ⟨hrest, hsecond⟩, ?_⟩
  intro y hy z hz
  rcases List.mem_cons.mp hz with rfl | hz
  · exact h.asymm (hl y (List.mem_of_mem_take hy)) hx (hbefore y hy)
  · exact hacross y hy z hz

end Lib
