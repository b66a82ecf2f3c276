import Matanos.Lib.Run
import Matanos.Lib.Slots
import Matanos.Lib.Word

/-!
The ordered array of `cpu/ordered_array.c`, for any items and any predicate `less_than`.

* `OrderedArray`: the slots from the address of the array on, also those behind its storage, and which
  slots have been read or written;
* `placeOrderedArray`, `insertOrderedArray`, `removeOrderedArray`, `lookupOrderedArray`: the functions,
  with their loops;
* `insertOrderedArray_spec`, `removeOrderedArray_spec`: what they do to the list of items;
* `ArrayCall`, `ArrayCall.step?`: calls of the functions;
* `ordered_array_sorted`: the items are sorted, and are those inserted and not removed;
* `ordered_array_inside_iff`: the slots are those of the storage if and only if no call is made when the
  array is full.
-/

namespace Matanos

open Lib

/-- The structure `ordered_array_t`, with the slots that have been read or written. -/
structure OrderedArray (α : Type*) where
  array : ℕ → α
  size : ℕ
  maxSize : ℕ
  touched : List ℕ

namespace OrderedArray

variable {α : Type*} (lessThan : α → α → Bool)

/-- Reading `array->array[i]`. -/
def get (i : ℕ) (a : OrderedArray α) : α × OrderedArray α :=
  (a.array i, { a with touched := i :: a.touched })

/-- Writing `array->array[i]`. -/
def set (i : ℕ) (x : α) (a : OrderedArray α) : OrderedArray α :=
  { a with array := Function.update a.array i x, touched := i :: a.touched }

/-- Writing `array->size`. -/
def setSize (n : ℕ) (a : OrderedArray α) : OrderedArray α := { a with size := n }

/-- `standard_lessthan_predicate`. -/
def standardLessthanPredicate (a b : ℕ) : Bool := decide (a < b)

/-- `place_ordered_array`, where `memory` has the slots and `zero` is what `memset` leaves. -/
def placeOrderedArray (zero : α) (memory : ℕ → α) (maxSize : ℕ) : OrderedArray α :=
  let cleared := maxSize * 4 % 2 ^ 32 / 4
  { array := fun i => if i < cleared then zero else memory i
    size := 0
    maxSize := maxSize
    touched := List.range cleared }

/-- The first loop of `insert_ordered_array`, for at most `n` more turns. -/
def findPosition (item : α) : ℕ → ℕ → OrderedArray α → ℕ × OrderedArray α
  | 0, iterator, a => (iterator, a)
  | n + 1, iterator, a =>
      let (x, a) := a.get iterator
      if lessThan x item then findPosition item n (iterator + 1) a else (iterator, a)

/-- The second loop of `insert_ordered_array`, for `n` more turns. -/
def shiftUp : ℕ → ℕ → α → OrderedArray α → OrderedArray α
  | 0, _, _, a => a
  | n + 1, iterator, tmp, a =>
      let iterator := iterator + 1
      let (tmp2, a) := a.get iterator
      shiftUp n iterator tmp2 (a.set iterator tmp)

/-- `insert_ordered_array`. -/
def insertOrderedArray (item : α) (a : OrderedArray α) : OrderedArray α :=
  let (iterator, a) := findPosition lessThan item a.size 0 a
  if iterator = a.size then (a.set a.size item).setSize (add32 a.size 1)
  else
    let (tmp, a) := a.get iterator
    let a := shiftUp (a.size - iterator) iterator tmp (a.set iterator item)
    a.setSize (add32 a.size 1)

/-- `lookup_ordered_array`; `none` is a failed `ASSERT`. -/
def lookupOrderedArray (i : ℕ) (a : OrderedArray α) : Option α :=
  if i < a.size then some (a.array i) else none

/-- The loop of `remove_ordered_array`, for `n` more turns. -/
def shiftDown : ℕ → ℕ → OrderedArray α → OrderedArray α
  | 0, _, a => a
  | n + 1, i, a =>
      let (x, a) := a.get (i + 1)
      shiftDown n (i + 1) (a.set i x)

/-- `remove_ordered_array`. -/
def removeOrderedArray (i : ℕ) (a : OrderedArray α) : OrderedArray α :=
  let a := shiftDown (a.size - i) i a
  a.setSize (sub32 a.size 1)

/-- The items of the array. -/
def items (a : OrderedArray α) : List α := slots a.array a.size

/-! ### The loops -/

variable {lessThan} {a : OrderedArray α} {item tmp : α} {n i j k : ℕ}

@[simp] lemma setSize_array : (a.setSize n).array = a.array := rfl
@[simp] lemma setSize_size : (a.setSize n).size = n := rfl
@[simp] lemma setSize_maxSize : (a.setSize n).maxSize = a.maxSize := rfl
@[simp] lemma setSize_touched : (a.setSize n).touched = a.touched := rfl

/-- **The first loop** stops at the first item that is not less. -/
lemma findPosition_spec {a' : OrderedArray α} (h : findPosition lessThan item n i a = (k, a')) :
    (∃ touched, a' = { a with touched := touched } ∧ ∀ j ∈ touched, j ∈ a.touched ∨ j < i + n) ∧
      i ≤ k ∧ k ≤ i + n ∧ (∀ j, i ≤ j → j < k → lessThan (a.array j) item = true) ∧
      (k < i + n → lessThan (a.array k) item = false) := by
  induction n generalizing i a with
  | zero =>
      obtain ⟨rfl, rfl⟩ := Prod.mk.inj h
      exact ⟨⟨a.touched, rfl, fun _ => Or.inl⟩, le_rfl, le_rfl, fun j h1 h2 => by omega,
        fun hlt => by omega⟩
  | succ n ih =>
      by_cases hless : lessThan (a.array i) item = true
      · simp only [findPosition, get, hless, if_true] at h
        obtain ⟨⟨touched, heq, htouched⟩, hlo, hhi, hbefore, hat⟩ := ih h
        refine ⟨⟨touched, heq, fun j hj => ?_⟩, by omega, by omega, fun j h1 h2 => ?_,
          fun hlt => hat (by omega)⟩
        · rcases htouched j hj with hmem | hlt
          · rcases List.mem_cons.mp hmem with rfl | hmem
            · exact Or.inr (by omega)
            · exact Or.inl hmem
          · exact Or.inr (by omega)
        · rcases Nat.eq_or_lt_of_le h1 with rfl | hlt
          · exact hless
          · exact hbefore j hlt h2
      · rw [Bool.not_eq_true] at hless
        simp only [findPosition, get, hless, Bool.false_eq_true, if_false] at h
        obtain ⟨rfl, rfl⟩ := Prod.mk.inj h
        refine ⟨⟨i :: a.touched, rfl, fun j hj => ?_⟩, le_rfl, by omega, fun j h1 h2 => by omega,
          fun _ => hless⟩
        rcases List.mem_cons.mp hj with rfl | hmem
        · exact Or.inr (by omega)
        · exact Or.inl hmem

/-- The slots after the second loop of `insert_ordered_array`. -/
lemma shiftUp_array :
    (shiftUp n i tmp a).array j =
      if i < j ∧ j ≤ i + n then if j = i + 1 then tmp else a.array (j - 1) else a.array j := by
  induction n generalizing i tmp a with
  | zero => rw [shiftUp, if_neg (by omega)]
  | succ n ih =>
      simp only [shiftUp, get, set]
      rw [ih]
      simp only
      rcases Nat.lt_trichotomy j (i + 1) with hj | rfl | hj
      · rw [if_neg (by omega), if_neg (by omega), Function.update_of_ne (by omega)]
      · rw [if_neg (by omega), if_pos (by omega), if_pos rfl, Function.update_self]
      · by_cases hle : j ≤ i + 1 + n
        · rw [if_pos (by omega)]
          by_cases h2 : j = i + 1 + 1
          · rw [if_pos h2, if_pos (by omega), if_neg (by omega), h2, Nat.add_sub_cancel]
          · rw [if_neg h2, if_pos (by omega), if_neg (by omega), Function.update_of_ne (by omega)]
        · rw [if_neg (by omega), if_neg (by omega), Function.update_of_ne (by omega)]

lemma shiftUp_size : (shiftUp n i tmp a).size = a.size := by
  induction n generalizing i tmp a with
  | zero => rfl
  | succ n ih => exact ih

lemma shiftUp_maxSize : (shiftUp n i tmp a).maxSize = a.maxSize := by
  induction n generalizing i tmp a with
  | zero => rfl
  | succ n ih => exact ih

lemma mem_touched_shiftUp :
    j ∈ (shiftUp n i tmp a).touched ↔ j ∈ a.touched ∨ i < j ∧ j ≤ i + n := by
  induction n generalizing i tmp a with
  | zero =>
      rw [shiftUp, iff_self_or]
      omega
  | succ n ih =>
      simp only [shiftUp, get, set]
      rw [ih]
      by_cases hmem : j ∈ a.touched
      · simp [hmem]
      · simp only [List.mem_cons, hmem, or_false, false_or]
        omega

/-- The slots after the loop of `remove_ordered_array`. -/
lemma shiftDown_array :
    (shiftDown n i a).array j = if i ≤ j ∧ j < i + n then a.array (j + 1) else a.array j := by
  induction n generalizing i a with
  | zero => rw [shiftDown, if_neg (by omega)]
  | succ n ih =>
      simp only [shiftDown, get, set]
      rw [ih]
      simp only
      rcases Nat.lt_trichotomy j i with hj | rfl | hj
      · rw [if_neg (by omega), if_neg (by omega), Function.update_of_ne (by omega)]
      · rw [if_neg (by omega), if_pos (by omega), Function.update_self]
      · by_cases hlt : j < i + 1 + n
        · rw [if_pos (by omega), if_pos (by omega), Function.update_of_ne (by omega)]
        · rw [if_neg (by omega), if_neg (by omega), Function.update_of_ne (by omega)]

lemma shiftDown_size : (shiftDown n i a).size = a.size := by
  induction n generalizing i a with
  | zero => rfl
  | succ n ih => exact ih

lemma shiftDown_maxSize : (shiftDown n i a).maxSize = a.maxSize := by
  induction n generalizing i a with
  | zero => rfl
  | succ n ih => exact ih

lemma mem_touched_shiftDown :
    j ∈ (shiftDown n i a).touched ↔ j ∈ a.touched ∨ 0 < n ∧ i ≤ j ∧ j ≤ i + n := by
  induction n generalizing i a with
  | zero =>
      rw [shiftDown, iff_self_or]
      omega
  | succ n ih =>
      simp only [shiftDown, get, set]
      rw [ih]
      by_cases hmem : j ∈ a.touched
      · simp [hmem]
      · simp only [List.mem_cons, hmem, or_false, false_or]
        omega

/-! ### The functions -/

/-- **`insert_ordered_array`** puts the item in front of the first that is not less, and touches the slot
behind the last. -/
lemma insertOrderedArray_spec (lessThan : α → α → Bool) (item : α) (hsize : a.size + 1 < 2 ^ 32) :
    (∃ k ≤ a.size, (insertOrderedArray lessThan item a).items
        = a.items.take k ++ item :: a.items.drop k ∧
      (∀ x ∈ a.items.take k, lessThan x item = true) ∧
      ∀ hlt : k < a.items.length, lessThan a.items[k] item = false) ∧
    (insertOrderedArray lessThan item a).size = a.size + 1 := by
  obtain ⟨k, a', hfind⟩ : ∃ k a', findPosition lessThan item a.size 0 a = (k, a') := ⟨_, _, rfl⟩
  obtain ⟨⟨touched, rfl, -⟩, -, hk, hbefore, hat⟩ := findPosition_spec hfind
  rw [Nat.zero_add] at hk hat
  have hadd : add32 a.size 1 = a.size + 1 := add32_of_lt hsize
  have hparts : (insertOrderedArray lessThan item a).size = a.size + 1 ∧
      ∀ j ≤ a.size, (insertOrderedArray lessThan item a).array j
        = if j < k then a.array j else if j = k then item else a.array (j - 1) := by
    simp only [insertOrderedArray, hfind]
    by_cases hend : k = a.size
    · rw [if_pos hend]
      refine ⟨hadd, fun j hj => ?_⟩
      simp only [set, setSize_array]
      by_cases hjk : j = k
      · rw [if_neg (by omega), if_pos hjk, ← hend, hjk, Function.update_self]
      · rw [if_pos (by omega), Function.update_of_ne (by omega)]
    · rw [if_neg hend]
      simp only [get, set, setSize_size, setSize_array, shiftUp_size, shiftUp_array]
      refine ⟨hadd, fun j hj => ?_⟩
      rcases Nat.lt_trichotomy j k with hjk | rfl | hjk
      · rw [if_neg (by omega), if_pos hjk, Function.update_of_ne (by omega)]
      · rw [if_neg (by omega), if_neg (by omega), if_pos rfl, Function.update_self]
      · rw [if_pos (by omega)]
        by_cases hnext : j = k + 1
        · rw [if_pos hnext, if_neg (by omega), if_neg (by omega), hnext, Nat.add_sub_cancel]
        · rw [if_neg hnext, if_neg (by omega), if_neg (by omega), Function.update_of_ne (by omega)]
  obtain ⟨hsize', harray⟩ := hparts
  refine ⟨⟨k, hk, ?_, fun x hx => ?_, fun hlt => ?_⟩, hsize'⟩
  · rw [items, hsize']
    exact slots_insert hk harray
  · obtain ⟨j, hj, rfl⟩ := List.mem_take_iff_getElem.mp hx
    simp only [items, getElem_slots]
    exact hbefore j (Nat.zero_le j) (by omega)
  · rw [items, length_slots] at hlt
    simp only [items, getElem_slots]
    exact hat hlt

lemma insertOrderedArray_maxSize : (insertOrderedArray lessThan item a).maxSize = a.maxSize := by
  obtain ⟨k, a', hfind⟩ : ∃ k a', findPosition lessThan item a.size 0 a = (k, a') := ⟨_, _, rfl⟩
  obtain ⟨⟨touched, rfl, -⟩, -⟩ := findPosition_spec hfind
  simp only [insertOrderedArray, hfind]
  split_ifs
  · rfl
  · simp only [get, set, setSize_maxSize, shiftUp_maxSize]

lemma removeOrderedArray_maxSize : (removeOrderedArray i a).maxSize = a.maxSize := by
  rw [removeOrderedArray, setSize_maxSize, shiftDown_maxSize]

/-- **`remove_ordered_array`** removes the item. -/
lemma removeOrderedArray_spec (hi : i < a.size) (hsize : a.size < 2 ^ 32) :
    (removeOrderedArray i a).items = a.items.eraseIdx i ∧
      (removeOrderedArray i a).size = a.size - 1 := by
  have hsub : (removeOrderedArray i a).size = a.size - 1 := by
    rw [removeOrderedArray, setSize_size, shiftDown_size]
    exact sub32_of_le (Nat.one_le_of_lt hi) hsize
  refine ⟨?_, hsub⟩
  rw [items, hsub]
  refine slots_erase hi fun j hj => ?_
  rw [removeOrderedArray, setSize_array, shiftDown_array]
  by_cases hij : i ≤ j
  · rw [if_pos (by omega), if_pos hij]
  · rw [if_neg (by omega), if_neg hij]

/-- `insert_ordered_array` touches the slot behind the last, and none behind that. -/
lemma insertOrderedArray_touched :
    a.size ∈ (insertOrderedArray lessThan item a).touched ∧
      ∀ j ∈ (insertOrderedArray lessThan item a).touched, j ∈ a.touched ∨ j ≤ a.size := by
  obtain ⟨k, a', hfind⟩ : ∃ k a', findPosition lessThan item a.size 0 a = (k, a') := ⟨_, _, rfl⟩
  obtain ⟨⟨touched, rfl, htouched⟩, -, hk, -, -⟩ := findPosition_spec hfind
  rw [Nat.zero_add] at hk htouched
  simp only [insertOrderedArray, hfind]
  by_cases hend : k = a.size
  · rw [if_pos hend]
    simp only [set, setSize_touched, List.mem_cons]
    refine ⟨Or.inl trivial, fun j hj => ?_⟩
    rcases hj with rfl | hj
    · exact Or.inr (Nat.le_refl _)
    · exact (htouched j hj).imp_right Nat.le_of_lt
  · rw [if_neg hend]
    simp only [get, set, setSize_touched, mem_touched_shiftUp, List.mem_cons]
    refine ⟨Or.inr ⟨by omega, by omega⟩, fun j hj => ?_⟩
    rcases hj with (rfl | rfl | hj) | hj
    · exact Or.inr hk
    · exact Or.inr hk
    · exact (htouched j hj).imp_right Nat.le_of_lt
    · exact Or.inr (by omega)

/-- So does `remove_ordered_array`. -/
lemma removeOrderedArray_touched (hi : i < a.size) :
    a.size ∈ (removeOrderedArray i a).touched ∧
      ∀ j ∈ (removeOrderedArray i a).touched, j ∈ a.touched ∨ j ≤ a.size := by
  have hmem : ∀ j, j ∈ (removeOrderedArray i a).touched ↔
      j ∈ a.touched ∨ 0 < a.size - i ∧ i ≤ j ∧ j ≤ i + (a.size - i) :=
    fun j => by rw [removeOrderedArray, setSize_touched, mem_touched_shiftDown]
  refine ⟨(hmem _).mpr (Or.inr ⟨by omega, by omega, by omega⟩), fun j hj => ?_⟩
  rcases (hmem j).mp hj with hj | hj
  · exact Or.inl hj
  · exact Or.inr (by omega)

/-- `lookup_ordered_array`. -/
lemma lookupOrderedArray_eq : a.lookupOrderedArray i = a.items[i]? := by
  rw [lookupOrderedArray, items]
  split_ifs with hi
  · exact (getElem?_slots hi).symm
  · exact (List.getElem?_eq_none (by rw [length_slots]; omega)).symm

end OrderedArray

/-! ### Sequences of calls -/

/-- A call of a function that changes the array. -/
inductive ArrayCall (α : Type*)
  | insert (item : α)
  | remove (i : ℕ)

namespace ArrayCall

open OrderedArray

variable {α : Type*} (lessThan : α → α → Bool) (S : Set α)

/-- One call. -/
def step? (a : OrderedArray α) : ArrayCall α → Option (OrderedArray α)
  | insert item => some (insertOrderedArray lessThan item a)
  | remove i => some (removeOrderedArray i a)

/-- The item that a call inserts. -/
def inserted (_ : OrderedArray α) : ArrayCall α → Multiset α
  | insert item => {item}
  | remove _ => 0

/-- The item that a call removes. -/
def removed (a : OrderedArray α) : ArrayCall α → Multiset α
  | insert _ => 0
  | remove i => (a.lookupOrderedArray i).elim 0 ({·})

/-- A position to remove is one of an item. -/
def InRange (a : OrderedArray α) : ArrayCall α → Prop
  | insert _ => True
  | remove i => i < a.size

/-- An item of `S` is inserted where there is room. -/
def Allowed (a : OrderedArray α) : ArrayCall α → Prop
  | insert item => item ∈ S ∧ a.size < a.maxSize
  | remove i => i < a.size

/-- An array of sorted items of `S`. -/
structure SortedArray (a : OrderedArray α) : Prop where
  room : a.size ≤ a.maxSize
  lt : a.maxSize < 2 ^ 32
  mem : ∀ x ∈ a.items, x ∈ S
  sorted : a.items.Pairwise fun x y => lessThan y x = false

variable {lessThan S} {a a' : OrderedArray α} {c : ArrayCall α} {calls : List (ArrayCall α)}
  {zero : α} {memory : ℕ → α} {maxSize : ℕ}

lemma step?_maxSize (hstep : step? lessThan a c = some a') : a'.maxSize = a.maxSize := by
  cases c with
  | insert item =>
      obtain rfl := Option.some.inj hstep
      exact insertOrderedArray_maxSize
  | remove i =>
      obtain rfl := Option.some.inj hstep
      exact removeOrderedArray_maxSize

lemma items_placeOrderedArray : (placeOrderedArray zero memory maxSize).items = [] := rfl

/-- **One call** keeps the items sorted, and changes them by the items that it inserts and removes. -/
lemma step_sorted (h : StrictWeakOn lessThan S) (hsorted : SortedArray lessThan S a)
    (hok : Allowed S a c) (hstep : step? lessThan a c = some a') :
    SortedArray lessThan S a' ∧
      (a'.items : Multiset α) + removed a c = (a.items : Multiset α) + inserted a c := by
  obtain ⟨hroom, hlt, hmem, hpairs⟩ := hsorted
  have hmax := step?_maxSize hstep
  cases c with
  | insert item =>
      obtain ⟨hitem, hfull⟩ := hok
      obtain rfl := Option.some.inj hstep
      have hsize₁ : a.size + 1 < 2 ^ 32 := by omega
      obtain ⟨⟨k, hk, hitems, hbefore, hat⟩, hsize⟩ := insertOrderedArray_spec lessThan item hsize₁
      have hperm : (a.items.take k ++ item :: a.items.drop k).Perm (item :: a.items) := by
        calc (a.items.take k ++ item :: a.items.drop k).Perm (item :: (a.items.take k ++ a.items.drop k)) :=
              List.perm_middle
          _ = item :: a.items := by rw [List.take_append_drop]
      refine ⟨⟨by omega, by omega, fun x hx => ?_, ?_⟩, ?_⟩
      · rw [hitems] at hx
        rcases List.mem_cons.mp (hperm.mem_iff.mp hx) with rfl | hx
        · exact hitem
        · exact hmem x hx
      · rw [hitems]
        exact pairwise_insert h hmem hitem hpairs (by simpa [items] using hk) hbefore hat
      · rw [hitems, Multiset.coe_eq_coe.mpr hperm, removed, inserted, add_zero, add_comm,
          Multiset.singleton_add, Multiset.cons_coe]
  | remove i =>
      have hi : i < a.size := hok
      have hi' : i < a.items.length := by rwa [items, length_slots]
      obtain rfl := Option.some.inj hstep
      obtain ⟨hitems, hsize⟩ := removeOrderedArray_spec hi (by omega)
      refine ⟨⟨by omega, by omega, fun x hx => ?_, ?_⟩, ?_⟩
      · rw [hitems] at hx
        exact hmem x (List.mem_of_mem_eraseIdx hx)
      · rw [hitems]
        exact hpairs.sublist (List.eraseIdx_sublist _ _)
      · have hperm := List.getElem_cons_eraseIdx_perm hi'
        rw [hitems, removed, inserted, lookupOrderedArray_eq, List.getElem?_eq_getElem hi', add_zero,
          Option.elim_some, add_comm, Multiset.singleton_add, Multiset.cons_coe,
          Multiset.coe_eq_coe.mpr hperm]

/-- **The ordered array is a sorted multiset.** -/
theorem ordered_array_sorted (h : StrictWeakOn lessThan S) (hmax : maxSize < 2 ^ 32)
    (hok : Along (step? lessThan) (Allowed S) (placeOrderedArray zero memory maxSize) calls) :
    ∃ a, run (step? lessThan) (placeOrderedArray zero memory maxSize) calls = some a ∧
      a.items.Pairwise (fun x y => lessThan y x = false) ∧
      (a.items : Multiset α)
          + total (step? lessThan) removed (placeOrderedArray zero memory maxSize) calls
        = total (step? lessThan) inserted (placeOrderedArray zero memory maxSize) calls ∧
      (∀ (i : ℕ) (hi : i < a.items.length), a.lookupOrderedArray i = some a.items[i]) ∧
      ∀ i < a.size, (removeOrderedArray i a).items = a.items.eraseIdx i := by
  have hstart : SortedArray lessThan S (placeOrderedArray zero memory maxSize) :=
    ⟨Nat.zero_le _, hmax, by simp [items_placeOrderedArray], by simp [items_placeOrderedArray]⟩
  obtain ⟨a, hrun, hsorted⟩ := run_invariant
    (fun s c hs hok => by
      obtain ⟨s', hs'⟩ : ∃ s', step? lessThan s c = some s' := by cases c <;> exact ⟨_, rfl⟩
      exact ⟨s', hs', (step_sorted h hs hok hs').1⟩) hstart hok
  have hbalance := run_balance (fun s c s' hs hok hstep => step_sorted h hs hok hstep) hstart hok hrun
  rw [items_placeOrderedArray, Multiset.coe_nil, zero_add] at hbalance
  refine ⟨a, hrun, hsorted.sorted, hbalance, fun i hi => ?_, fun i hi => ?_⟩
  · rw [lookupOrderedArray_eq, List.getElem?_eq_getElem hi]
  · exact (removeOrderedArray_spec hi (lt_of_le_of_lt hsorted.room hsorted.lt)).1

/-- Two numbers are inserted, and the first of them is removed. -/
theorem ordered_array_sorted_pair :
    ∃ a, run (step? standardLessthanPredicate) (placeOrderedArray 0 (fun _ => 7) 2)
        [insert 5, insert 3, remove 0] = some a ∧
      a.items.Pairwise (fun x y => standardLessthanPredicate y x = false) ∧
      (a.items : Multiset ℕ) + total (step? standardLessthanPredicate) removed
          (placeOrderedArray 0 (fun _ => 7) 2) [insert 5, insert 3, remove 0]
        = total (step? standardLessthanPredicate) inserted
          (placeOrderedArray 0 (fun _ => 7) 2) [insert 5, insert 3, remove 0] := by
  have hok : Along (step? standardLessthanPredicate) (Allowed Set.univ)
      (placeOrderedArray 0 (fun _ => 7) 2) [insert 5, insert 3, remove 0] := by
    refine ⟨⟨trivial, by decide⟩, ?_⟩
    rintro _ ⟨⟩
    refine ⟨⟨trivial, by decide⟩, ?_⟩
    rintro _ ⟨⟩
    refine ⟨show 0 < _ by decide, ?_⟩
    rintro _ ⟨⟩
    trivial
  obtain ⟨a, hrun, hsorted, hbalance, -⟩ := ordered_array_sorted strictWeakOn_lt (by norm_num) hok
  exact ⟨a, hrun, hsorted, hbalance⟩

/-! ### Staying inside -/

/-- The array and the slots that have been touched lie in the storage. -/
def Inside (a : OrderedArray α) : Prop :=
  (∀ j ∈ a.touched, j < a.maxSize) ∧ a.size ≤ a.maxSize

/-- After the call the array lies in the storage. -/
def KeepsInside (lessThan : α → α → Bool) (a : OrderedArray α) (c : ArrayCall α) : Prop :=
  ∀ a', step? lessThan a c = some a' → Inside a'

/-- The array has room for one more item. -/
def NotFull (a : OrderedArray α) (_ : ArrayCall α) : Prop := a.size < a.maxSize

lemma inside_placeOrderedArray : Inside (placeOrderedArray zero memory maxSize) := by
  refine ⟨fun j hj => ?_, Nat.zero_le _⟩
  have hlt : j < maxSize * 4 % 2 ^ 32 / 4 := List.mem_range.mp hj
  have hle : maxSize * 4 % 2 ^ 32 ≤ maxSize * 4 := Nat.mod_le _ _
  change j < maxSize
  omega

/-- **One call** stays inside if and only if the array is not full: both loops go up to the slot behind
the last. -/
lemma keepsInside_iff (hinside : Inside a) (hmax : a.maxSize < 2 ^ 32) (hrange : InRange a c) :
    KeepsInside lessThan a c ↔ NotFull a c := by
  obtain ⟨htouched, hroom⟩ := hinside
  have hiff : ∀ a', step? lessThan a c = some a' → a'.maxSize = a.maxSize →
      (a.size < a.maxSize → a'.size ≤ a.maxSize) →
      (a.size ∈ a'.touched ∧ ∀ j ∈ a'.touched, j ∈ a.touched ∨ j ≤ a.size) →
      (KeepsInside lessThan a c ↔ NotFull a c) := by
    intro a' hstep hmax' hsize' htouched'
    constructor
    · intro hkeeps
      have hlt := (hkeeps a' hstep).1 a.size htouched'.1
      rwa [hmax'] at hlt
    · intro hfull a'' hstep'
      obtain rfl := Option.some.inj (hstep.symm.trans hstep')
      refine ⟨fun j hj => ?_, by rw [hmax']; exact hsize' hfull⟩
      rw [hmax']
      rcases htouched'.2 j hj with hj | hj
      · exact htouched j hj
      · exact lt_of_le_of_lt hj hfull
  cases c with
  | insert item =>
      refine hiff _ rfl ?_ (fun hlt => ?_) insertOrderedArray_touched
      · exact insertOrderedArray_maxSize
      · rw [(insertOrderedArray_spec lessThan item (by omega)).2]
        exact hlt
  | remove i =>
      have hspec := removeOrderedArray_spec (i := i) (a := a) hrange (by omega)
      refine hiff _ rfl removeOrderedArray_maxSize (fun hlt => ?_) (removeOrderedArray_touched hrange)
      rw [hspec.2]
      omega

/-- **The ordered array stays inside its storage** if and only if no call is made while it is full. -/
theorem ordered_array_inside_iff (hmax : maxSize < 2 ^ 32)
    (hrange : Along (step? lessThan) InRange (placeOrderedArray zero memory maxSize) calls) :
    (Inside (placeOrderedArray zero memory maxSize) ∧
      Along (step? lessThan) (KeepsInside lessThan) (placeOrderedArray zero memory maxSize) calls) ↔
      Along (step? lessThan) NotFull (placeOrderedArray zero memory maxSize) calls := by
  rw [and_iff_right inside_placeOrderedArray]
  have hiff : ∀ a c, Inside a ∧ a.maxSize < 2 ^ 32 → InRange a c →
      (KeepsInside lessThan a c ↔ NotFull a c) :=
    fun a c hinv hpre => keepsInside_iff hinv.1 hinv.2 hpre
  refine along_iff hiff (fun a c a' hinv _ hkeeps hstep => ?_) ⟨inside_placeOrderedArray, hmax⟩ hrange
  refine ⟨hkeeps a' hstep, ?_⟩
  rw [step?_maxSize hstep]
  exact hinv.2

/-- Two slots for the two numbers; the last call is made when both are in use. -/
theorem ordered_array_inside_pair :
    (Inside (placeOrderedArray 0 (fun _ => 7) 2) ∧
      Along (step? standardLessthanPredicate) (KeepsInside standardLessthanPredicate)
        (placeOrderedArray 0 (fun _ => 7) 2) [insert 5, insert 3, remove 0]) ↔
      Along (step? standardLessthanPredicate) NotFull (placeOrderedArray 0 (fun _ => 7) 2)
        [insert 5, insert 3, remove 0] := by
  refine ordered_array_inside_iff (by norm_num) ⟨trivial, ?_⟩
  rintro _ ⟨⟩
  refine ⟨trivial, ?_⟩
  rintro _ ⟨⟩
  refine ⟨show 0 < _ by decide, ?_⟩
  rintro _ ⟨⟩
  trivial

/-- In an array with one slot the second item is written behind the storage. -/
theorem ordered_array_inserts_into_full :
    ¬ (Inside (placeOrderedArray 0 (fun _ => 7) 1) ∧
      Along (step? standardLessthanPredicate) (KeepsInside standardLessthanPredicate)
        (placeOrderedArray 0 (fun _ => 7) 1) [insert 5, insert 7]) := by
  rintro ⟨-, -, hsecond⟩
  have hinside := (hsecond _ rfl).1 _ rfl
  exact absurd (hinside.1 1 (by decide)) (by decide)

end ArrayCall

end Matanos
