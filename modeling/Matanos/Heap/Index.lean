import Mathlib.Data.List.Sort
import Matanos.Lib.Bytes
import Matanos.Lib.Slots
import Matanos.Heap.Grow

/-!
The ordered array of `cpu/ordered_array.c`, as the heap uses it: an array of pointers to headers
in memory, in front of the heap, ordered by the sizes that the headers hold.

* `Heap.word`, `Heap.slots`: one entry, and the entries in use;
* `insertOrderedArray`, `removeOrderedArray`: the functions, with their loops that move entries;
* `slots_insert`, `slots_remove`: on the list of entries they are the ordered insertion and the
  removal at an index; `insert_byte`, `remove_byte`: they change the array only.
-/

namespace Matanos

open Lib

namespace Heap

/-- `index.array[i]`. -/
def word (h : Heap) (m : Bytes) (i : ℕ) : ℕ := read32 m (h.array + 4 * i)

/-- The entries of the index. -/
def slots (h : Heap) (m : Bytes) : List ℕ := (List.range h.size).map (h.word m)

/-- `header_t_less_than`. -/
def headerLessThan (m : Bytes) (a b : ℕ) : Bool := read32 m (a + 8) < read32 m (b + 8)

/-- The second loop of `insert_ordered_array`, for `n` more turns. -/
def shiftUp (array : ℕ) : ℕ → ℕ → ℕ → Bytes → Bytes
  | 0, _, _, m => m
  | n + 1, iterator, tmp, m =>
      let iterator := iterator + 1
      let tmp2 := read32 m (array + 4 * iterator)
      shiftUp array n iterator tmp2 (write32 m (array + 4 * iterator) tmp)

/-- `insert_ordered_array`. -/
def insertOrderedArray (h : Heap) (m : Bytes) (item : ℕ) : Heap × Bytes :=
  let iterator := (h.slots m).findIdx fun x => !headerLessThan m x item
  let m :=
    if iterator = h.size then write32 m (h.array + 4 * h.size) item
    else
      let tmp := h.word m iterator
      let m := write32 m (h.array + 4 * iterator) item
      shiftUp h.array (h.size - iterator) iterator tmp m
  ({ h with size := h.size + 1 }, m)

/-- The loop of `remove_ordered_array`, for `n` more turns. -/
def shiftDown (array : ℕ) : ℕ → ℕ → Bytes → Bytes
  | 0, _, m => m
  | n + 1, i, m =>
      shiftDown array n (i + 1) (write32 m (array + 4 * i) (read32 m (array + 4 * (i + 1))))

/-- `remove_ordered_array`. -/
def removeOrderedArray (h : Heap) (m : Bytes) (i : ℕ) : Heap × Bytes :=
  ({ h with size := h.size - 1 }, shiftDown h.array (h.size - i) i m)

/-! ### The loops -/

variable {h : Heap} {m m' : Bytes} {array n i j x tmp item : ℕ}

lemma shiftUp_byte (hx : x < array + 4 * (i + 1) ∨ array + 4 * (i + n + 1) ≤ x) :
    shiftUp array n i tmp m x = m x := by
  induction n generalizing i tmp m with
  | zero => rfl
  | succ n ih =>
      rw [shiftUp, ih (by omega)]
      exact write32_byte (by omega)

lemma shiftUp_word (htmp : tmp < 2 ^ 32) :
    read32 (shiftUp array n i tmp m) (array + 4 * j) =
      if i < j ∧ j ≤ i + n then
        if j = i + 1 then tmp else read32 m (array + 4 * (j - 1))
      else read32 m (array + 4 * j) := by
  induction n generalizing i tmp m with
  | zero => rw [shiftUp, if_neg (by omega)]
  | succ n ih =>
      rw [shiftUp, ih read32_lt]
      rcases Nat.lt_trichotomy j (i + 1) with hj | rfl | hj
      · rw [if_neg (by omega), if_neg (by omega), read32_write32_of_apart (by omega)]
      · rw [if_neg (by omega), if_pos (by omega), if_pos rfl, read32_write32 htmp]
      · by_cases hle : j ≤ i + 1 + n
        · rw [if_pos (by omega)]
          by_cases h2 : j = i + 1 + 1
          · rw [if_pos h2, if_pos (by omega), if_neg (by omega), h2, Nat.add_sub_cancel]
          · rw [if_neg h2, read32_write32_of_apart (by omega), if_pos (by omega),
              if_neg (by omega)]
        · rw [if_neg (by omega), if_neg (by omega), read32_write32_of_apart (by omega)]

lemma shiftDown_byte (hx : x < array + 4 * i ∨ array + 4 * (i + n) ≤ x) :
    shiftDown array n i m x = m x := by
  induction n generalizing i m with
  | zero => rfl
  | succ n ih =>
      rw [shiftDown, ih (by omega)]
      exact write32_byte (by omega)

lemma shiftDown_word :
    read32 (shiftDown array n i m) (array + 4 * j) =
      if i ≤ j ∧ j < i + n then read32 m (array + 4 * (j + 1)) else read32 m (array + 4 * j) := by
  induction n generalizing i m with
  | zero => rw [shiftDown, if_neg (by omega)]
  | succ n ih =>
      rw [shiftDown, ih]
      rcases Nat.lt_trichotomy j i with hj | rfl | hj
      · rw [if_neg (by omega), if_neg (by omega), read32_write32_of_apart (by omega)]
      · rw [if_neg (by omega), if_pos (by omega), read32_write32 read32_lt]
      · by_cases hlt : j < i + 1 + n
        · rw [if_pos (by omega), if_pos (by omega), read32_write32_of_apart (by omega)]
        · rw [if_neg (by omega), if_neg (by omega), read32_write32_of_apart (by omega)]

/-! ### The entries -/

@[simp] lemma length_slots : (h.slots m).length = h.size := Lib.length_slots

lemma getElem_slots (hi : i < (h.slots m).length) : (h.slots m)[i] = h.word m i :=
  Lib.getElem_slots hi

lemma getElem?_slots (hi : i < h.size) : (h.slots m)[i]? = some (h.word m i) :=
  Lib.getElem?_slots hi

lemma word_mem_slots (hi : i < h.size) : h.word m i ∈ h.slots m :=
  List.mem_map.mpr ⟨i, List.mem_range.mpr hi, rfl⟩

/-- The entries depend on the array only. -/
lemma slots_congr (hm : AgreeOn m m' h.array (h.array + 4 * h.size)) : h.slots m' = h.slots m :=
  Lib.slots_congr fun i hi => hm.read32 (by omega) (by omega)

/-- The order of the index. -/
abbrev keyLe (m : Bytes) (a b : ℕ) : Prop := read32 m (a + 8) ≤ read32 m (b + 8)

/-- The position that the first loop of `insert_ordered_array` finds is that of the ordered
insertion. -/
lemma orderedInsert_eq_take (l : List ℕ) :
    l.orderedInsert (keyLe m) item =
      l.take (l.findIdx fun x => !headerLessThan m x item) ++
        item :: l.drop (l.findIdx fun x => !headerLessThan m x item) := by
  induction l with
  | nil => rfl
  | cons y l ih =>
      by_cases hy : keyLe m item y
      · have hlt : headerLessThan m y item = false := decide_eq_false (Nat.not_lt.mpr hy)
        rw [List.orderedInsert_cons_of_le _ _ hy, List.findIdx_cons, hlt]
        rfl
      · have hlt : headerLessThan m y item = true := decide_eq_true (Nat.lt_of_not_le hy)
        rw [List.orderedInsert_of_not_le _ _ hy, List.findIdx_cons, hlt, ih]
        rfl

/-- The entry `j` after an insertion at the position `k`. -/
lemma word_insert (hitem : item < 2 ^ 32) {k : ℕ}
    (hk : k = (h.slots m).findIdx fun x => !headerLessThan m x item) :
    h.word (h.insertOrderedArray m item).2 j =
      if j < k ∨ h.size < j then h.word m j else if j = k then item else h.word m (j - 1) := by
  have hle : k ≤ h.size := by
    rw [hk, ← length_slots (h := h) (m := m)]
    exact List.findIdx_le_length
  simp only [insertOrderedArray, ← hk]
  by_cases hend : k = h.size
  · rw [if_pos hend]
    simp only [word]
    rcases Nat.lt_trichotomy j k with hj | rfl | hj
    · rw [if_pos (Or.inl hj), read32_write32_of_apart (by omega)]
    · rw [if_neg (by omega), if_pos rfl, ← hend, read32_write32 hitem]
    · rw [if_pos (Or.inr (by omega)), read32_write32_of_apart (by omega)]
  · rw [if_neg hend]
    simp only [word]
    rw [shiftUp_word read32_lt]
    rcases Nat.lt_trichotomy j k with hj | rfl | hj
    · rw [if_neg (by omega), if_pos (Or.inl hj), read32_write32_of_apart (by omega)]
    · rw [if_neg (by omega), if_neg (by omega), if_pos rfl, read32_write32 hitem]
    · by_cases hsize : h.size < j
      · rw [if_neg (by omega), if_pos (Or.inr hsize), read32_write32_of_apart (by omega)]
      · rw [if_pos (by omega)]
        by_cases hnext : j = k + 1
        · rw [if_pos hnext, if_neg (by omega), if_neg (by omega), hnext, Nat.add_sub_cancel]
        · rw [if_neg hnext, read32_write32_of_apart (by omega), if_neg (by omega),
            if_neg (by omega)]

/-- **`insert_ordered_array` is the ordered insertion.** -/
lemma slots_insert (hitem : item < 2 ^ 32) :
    (h.insertOrderedArray m item).1.slots (h.insertOrderedArray m item).2 =
      (h.slots m).orderedInsert (keyLe m) item := by
  rw [orderedInsert_eq_take]
  obtain ⟨k, hk⟩ : ∃ k, k = (h.slots m).findIdx fun x => !headerLessThan m x item := ⟨_, rfl⟩
  have hle : k ≤ h.size := by
    rw [hk, ← length_slots (h := h) (m := m)]
    exact List.findIdx_le_length
  rw [← hk]
  refine Lib.slots_insert hle fun j hj => ?_
  have hword : h.word (h.insertOrderedArray m item).2 j =
      if j < k ∨ h.size < j then h.word m j else if j = k then item else h.word m (j - 1) :=
    word_insert hitem hk
  exact hword.trans (if_congr (or_iff_left (by omega)) rfl rfl)

/-- The bytes outside the array, up to one new entry. -/
lemma insert_byte (hx : x < h.array ∨ h.array + 4 * (h.size + 1) ≤ x) :
    (h.insertOrderedArray m item).2 x = m x := by
  obtain ⟨k, hk⟩ : ∃ k, k = (h.slots m).findIdx fun x => !headerLessThan m x item := ⟨_, rfl⟩
  have hle : k ≤ h.size := by
    rw [hk, ← length_slots (h := h) (m := m)]
    exact List.findIdx_le_length
  simp only [insertOrderedArray, ← hk]
  split_ifs with hend
  · exact write32_byte (by omega)
  · rw [shiftUp_byte (by omega)]
    exact write32_byte (by omega)

/-- The entry `j` after the removal of the entry `i`. -/
lemma word_remove (hi : i < h.size) : h.word (h.removeOrderedArray m i).2 j =
    if i ≤ j ∧ j < h.size then h.word m (j + 1) else h.word m j := by
  simp only [removeOrderedArray, word]
  rw [shiftDown_word]
  simp only [show i + (h.size - i) = h.size by omega]

/-- **`remove_ordered_array` removes the entry.** -/
lemma slots_remove (hi : i < h.size) :
    (h.removeOrderedArray m i).1.slots (h.removeOrderedArray m i).2 = (h.slots m).eraseIdx i := by
  refine Lib.slots_erase hi fun j hj => ?_
  have hword : h.word (h.removeOrderedArray m i).2 j =
      if i ≤ j ∧ j < h.size then h.word m (j + 1) else h.word m j := word_remove hi
  exact hword.trans (if_congr (and_iff_left hj) rfl rfl)

/-- The bytes outside the array. -/
lemma remove_byte (hi : i < h.size) (hx : x < h.array ∨ h.array + 4 * h.size ≤ x) :
    (h.removeOrderedArray m i).2 x = m x := by
  rw [removeOrderedArray]
  exact shiftDown_byte (by omega)

end Heap

end Matanos
