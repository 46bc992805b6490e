/-!
# Rings

A ring of slots holds a row of elements from its head on; its other slots are free.  A full ring
is opened up by a gap of free slots at the place where the next element goes.
-/

namespace RowStream

/-- A ring of slots. -/
structure Ring (α : Type) where
  slots : Array (Option α)
  /-- The number of elements. -/
  size : Nat
  /-- The slot of the first element. -/
  head : Nat
  /-- The slot for the next element. -/
  tail : Nat

namespace Ring

variable {α : Type}

/-- A ring without elements or slots. -/
def empty : Ring α := ⟨#[], 0, 0, 0⟩

/-- The number of slots. -/
def capacity (r : Ring α) : Nat := r.slots.size

/-- The number of slots after a full ring of `capacity` slots. -/
def nextCapacity (capacity : Nat) : Nat :=
  if capacity = 0 then 8
  else if capacity < 1024 then 2 * capacity
  else capacity + capacity / 4

/-- Opens a gap of free slots in a full ring, before the first element. -/
def grow (r : Ring α) : Ring α :=
  let gap := Array.replicate (nextCapacity r.capacity - r.capacity) none
  if r.head = 0 then
    -- The first element is in the first slot, so the gap goes to the end.
    { r with slots := r.slots ++ gap, tail := r.capacity }
  else
    -- The elements from the first one on move to the end; the tail already points at the gap.
    { r with
      slots := r.slots.extract 0 r.head ++ gap ++ r.slots.extract r.head r.capacity
      head := nextCapacity r.capacity - (r.capacity - r.head) }

/-- Puts an element into the free slot at the tail. -/
def place (r : Ring α) (a : α) : Ring α :=
  { r with
    slots := r.slots.setIfInBounds r.tail (some a)
    size := r.size + 1
    tail := (r.tail + 1) % r.capacity }

/-- Appends an element, in a larger ring if the ring is full. -/
def push (r : Ring α) (a : α) : Ring α :=
  if r.size = r.capacity then r.grow.place a else r.place a

/-- The first element. -/
def peek? (r : Ring α) : Option α :=
  if r.size = 0 then none else (r.slots[r.head]?).join

/-- Frees the slot of the first element. -/
def dropHead (r : Ring α) : Ring α :=
  { r with
    slots := r.slots.setIfInBounds r.head none
    size := r.size - 1
    head := (r.head + 1) % r.capacity }

/-- The elements in order. -/
def toList (r : Ring α) : List α :=
  (List.range r.size).filterMap fun i => (r.slots[(r.head + i) % r.capacity]?).join

/-- The slots from the head on hold some elements in order, and the slots after them are free. -/
structure Holds (r : Ring α) (xs : List α) : Prop where
  size_eq : r.size = xs.length
  length_le : xs.length ≤ r.capacity
  head_lt : r.head < max 1 r.capacity
  tail_eq : r.tail = (r.head + xs.length) % r.capacity
  slot_eq : ∀ i < r.capacity, r.slots[(r.head + i) % r.capacity]? = some xs[i]?

/-! ## 1. Places in a ring -/

/-- A place counted from the head, where the ring may wrap once. -/
theorem wrap_eq {n h i : Nat} (hh : h < n) (hi : i ≤ n) :
    (h + i) % n = if h + i < n then h + i else h + i - n := by
  split
  next hlt => exact Nat.mod_eq_of_lt hlt
  next hge =>
    rw [Nat.mod_eq_sub_mod (by omega), Nat.mod_eq_of_lt (by omega)]

theorem wrap_inj {n h i j : Nat} (hh : h < n) (hi : i < n) (hj : j < n) :
    (h + i) % n = (h + j) % n ↔ i = j := by
  rw [wrap_eq hh (by omega), wrap_eq hh (by omega)]
  split <;> split <;> omega

/-- Counting from the next slot on is counting one further. -/
theorem wrap_succ (n h i : Nat) :
    ((h + 1) % n + i) % n = (h + (i + 1)) % n := by
  rw [Nat.mod_add_mod]
  congr 1
  omega

theorem lt_nextCapacity (n : Nat) : n < nextCapacity n := by
  unfold nextCapacity
  split
  · omega
  · split <;> omega

/-- Picking the elements of a list by place gives the list. -/
theorem filterMap_range {α : Type} (xs : List α) (pick : Nat → Option α)
    (hpick : ∀ i < xs.length, pick i = xs[i]?) :
    (List.range xs.length).filterMap pick = xs := by
  induction xs generalizing pick with
  | nil => rfl
  | cons x xs ih =>
    rw [List.length_cons, List.range_succ_eq_map,
      List.filterMap_cons_some (hpick 0 (Nat.zero_lt_succ _)), List.filterMap_map]
    congr 1
    apply ih
    intro i hi
    exact hpick (i + 1) (Nat.succ_lt_succ hi)

/-! ## 2. What the operations do to the elements -/

theorem holds_empty : (empty : Ring α).Holds [] where
  size_eq := rfl
  length_le := Nat.le_refl _
  head_lt := Nat.one_pos
  tail_eq := rfl
  slot_eq i hi := absurd hi (Nat.not_lt_zero i)

namespace Holds

variable {r : Ring α} {xs : List α} {a : α}

/-- The head is a slot as soon as there are slots. -/
theorem head_lt_capacity (h : r.Holds xs) (hc : 0 < r.capacity) : r.head < r.capacity := by
  have := h.head_lt
  omega

theorem toList_eq (h : r.Holds xs) : r.toList = xs := by
  rw [toList, h.size_eq]
  apply filterMap_range
  intro i hi
  rw [h.slot_eq i (Nat.lt_of_lt_of_le hi h.length_le), Option.join_some]

/-- What a ring holds is what it lists. -/
theorem self (h : r.Holds xs) : r.Holds r.toList := by
  rw [h.toList_eq]
  exact h

theorem peek?_eq (h : r.Holds xs) : r.peek? = xs.head? := by
  unfold peek?
  cases xs with
  | nil => exact if_pos h.size_eq
  | cons x xs =>
    have hsize := h.size_eq
    have hlen := h.length_le
    rw [List.length_cons] at hsize hlen
    have hhead := h.head_lt_capacity (by omega)
    have hslot := h.slot_eq 0 (by omega)
    rw [Nat.add_zero, Nat.mod_eq_of_lt hhead] at hslot
    rw [if_neg (by omega), hslot]
    rfl

/-- A free slot takes the next element. -/
theorem place (h : r.Holds xs) (hfree : xs.length < r.capacity) :
    (r.place a).Holds (xs ++ [a]) := by
  have hhead := h.head_lt_capacity (by omega)
  have hcap : (r.place a).capacity = r.capacity := Array.size_setIfInBounds
  have htail : r.tail < r.capacity := h.tail_eq ▸ Nat.mod_lt _ (by omega)
  refine ⟨?_, ?_, ?_, ?_, ?_⟩
  · rw [List.length_append, List.length_singleton, ← h.size_eq]
    rfl
  · rw [List.length_append, List.length_singleton, hcap]
    omega
  · rw [hcap]
    exact h.head_lt
  · rw [hcap, List.length_append, List.length_singleton]
    show (r.tail + 1) % r.capacity = _
    rw [h.tail_eq, Nat.mod_add_mod, Nat.add_assoc]
    rfl
  · intro i hi
    rw [hcap] at hi ⊢
    show (r.slots.setIfInBounds r.tail (some a))[(r.head + i) % r.capacity]? = _
    by_cases hlast : i = xs.length
    · rw [hlast, ← h.tail_eq, Array.getElem?_setIfInBounds_self_of_lt htail,
        List.getElem?_concat_length]
    · have hne : r.tail ≠ (r.head + i) % r.capacity := by
        rw [h.tail_eq, Ne, wrap_inj hhead hfree hi]
        exact Ne.symm hlast
      rw [Array.getElem?_setIfInBounds_ne hne, h.slot_eq i hi]
      by_cases hlt : i < xs.length
      · rw [List.getElem?_append_left hlt]
      · rw [List.getElem?_eq_none (by omega), List.getElem?_eq_none]
        rw [List.length_append, List.length_singleton]
        omega

/-- Popping leaves the elements after the first. -/
theorem dropHead {x : α} (h : r.Holds (x :: xs)) : r.dropHead.Holds xs := by
  have hsize := h.size_eq
  have hlen := h.length_le
  rw [List.length_cons] at hsize hlen
  have hhead := h.head_lt_capacity (by omega)
  have hcap : r.dropHead.capacity = r.capacity := Array.size_setIfInBounds
  refine ⟨?_, ?_, ?_, ?_, ?_⟩
  · show r.size - 1 = xs.length
    omega
  · omega
  · rw [hcap]
    exact Nat.lt_of_lt_of_le (Nat.mod_lt _ (by omega)) (Nat.le_max_right ..)
  · rw [hcap]
    show r.tail = ((r.head + 1) % r.capacity + xs.length) % r.capacity
    rw [wrap_succ, h.tail_eq, List.length_cons]
  · intro i hi
    rw [hcap] at hi ⊢
    show (r.slots.setIfInBounds r.head none)[((r.head + 1) % r.capacity + i) % r.capacity]? = _
    rw [wrap_succ]
    by_cases hlast : i + 1 = r.capacity
    · -- The last place from the new head on is the slot just freed.
      rw [hlast, Nat.add_mod_right, Nat.mod_eq_of_lt hhead,
        Array.getElem?_setIfInBounds_self_of_lt hhead, List.getElem?_eq_none (by omega)]
    · have hne : r.head ≠ (r.head + (i + 1)) % r.capacity := by
        rw [wrap_eq hhead (by omega)]
        split <;> omega
      rw [Array.getElem?_setIfInBounds_ne hne, h.slot_eq (i + 1) (by omega),
        List.getElem?_cons_succ]

/-- The slots of a full ring whose first element is in its first slot. -/
theorem grow_of_head_eq_zero (h : r.Holds xs) (hfull : xs.length = r.capacity)
    (hzero : r.head = 0) : r.grow.Holds xs := by
  have hnext := lt_nextCapacity r.capacity
  let slots := r.slots ++ Array.replicate (nextCapacity r.capacity - r.capacity) none
  have hslots : slots.size = nextCapacity r.capacity := by
    rw [Array.size_append, Array.size_replicate]
    exact Nat.add_sub_cancel' (Nat.le_of_lt hnext)
  have hgrow : r.grow = { r with slots, tail := r.capacity } := if_pos hzero
  rw [hgrow]
  refine ⟨h.size_eq, ?_, ?_, ?_, ?_⟩
  · show xs.length ≤ slots.size
    omega
  · show r.head < max 1 slots.size
    omega
  · show r.capacity = (r.head + xs.length) % slots.size
    rw [hslots, hzero, Nat.zero_add, hfull, Nat.mod_eq_of_lt hnext]
  · intro i hi
    change i < slots.size at hi
    show slots[(r.head + i) % slots.size]? = _
    rw [hzero, Nat.zero_add, Nat.mod_eq_of_lt hi]
    by_cases hlt : i < r.capacity
    · have hslot := h.slot_eq i hlt
      rw [hzero, Nat.zero_add, Nat.mod_eq_of_lt hlt] at hslot
      rw [Array.getElem?_append_left hlt, hslot]
    · rw [Array.getElem?_append_right (Nat.le_of_not_lt hlt), List.getElem?_eq_none (by omega),
        Array.getElem?_replicate, if_pos]
      show i - r.capacity < _
      omega

/-- A full ring whose elements wrap: those before the head stay, the others move to the end. -/
theorem grow_of_head_pos (h : r.Holds xs) (hfull : xs.length = r.capacity)
    (hpos : r.head ≠ 0) : r.grow.Holds xs := by
  have hnext := lt_nextCapacity r.capacity
  have hhead : r.head < r.capacity := by
    have := h.head_lt
    omega
  let gap : Array (Option α) := Array.replicate (nextCapacity r.capacity - r.capacity) none
  let slots := r.slots.extract 0 r.head ++ gap ++ r.slots.extract r.head r.capacity
  have hgap : gap.size = nextCapacity r.capacity - r.capacity := Array.size_replicate
  have hfront : (r.slots.extract 0 r.head).size = r.head := by
    rw [Array.size_extract]
    show min r.head r.capacity - 0 = _
    omega
  have hback : (r.slots.extract r.head r.capacity).size = r.capacity - r.head := by
    rw [Array.size_extract]
    show min r.capacity r.capacity - _ = _
    omega
  have hslots : slots.size = nextCapacity r.capacity := by
    rw [Array.size_append, Array.size_append, hfront, hback, hgap]
    omega
  have hgrow : r.grow =
      { r with slots, head := nextCapacity r.capacity - (r.capacity - r.head) } := if_neg hpos
  rw [hgrow]
  refine ⟨h.size_eq, ?_, ?_, ?_, ?_⟩
  · show xs.length ≤ slots.size
    omega
  · show _ - _ < max 1 slots.size
    omega
  · show r.tail = (nextCapacity r.capacity - (r.capacity - r.head) + xs.length) % slots.size
    rw [h.tail_eq, hslots, hfull, Nat.add_mod_right, Nat.mod_eq_of_lt hhead,
      show nextCapacity r.capacity - (r.capacity - r.head) + r.capacity =
        r.head + nextCapacity r.capacity by omega,
      Nat.add_mod_right, Nat.mod_eq_of_lt (by omega)]
  · intro i hi
    change i < slots.size at hi
    show slots[(nextCapacity r.capacity - (r.capacity - r.head) + i) % slots.size]? = _
    rw [hslots] at hi ⊢
    rw [wrap_eq (by omega) (by omega)]
    by_cases hmoved : i < r.capacity - r.head
    · have hslot := h.slot_eq i (by omega)
      rw [Nat.mod_eq_of_lt (by omega)] at hslot
      rw [if_pos (by omega), Array.getElem?_append_right (by rw [Array.size_append]; omega),
        Array.size_append, hfront, hgap, Array.getElem?_extract, if_pos, ← hslot]
      · congr 1
        omega
      · show _ < min r.capacity r.capacity - r.head
        omega
    · rw [if_neg (by omega)]
      by_cases hlt : i < r.capacity
      · have hslot := h.slot_eq i hlt
        rw [wrap_eq hhead (by omega), if_neg (by omega)] at hslot
        rw [Array.getElem?_append_left (by rw [Array.size_append]; omega),
          Array.getElem?_append_left (by omega), Array.getElem?_extract, if_pos, ← hslot]
        · congr 1
          omega
        · show _ < min r.head r.capacity - 0
          omega
      · rw [Array.getElem?_append_left (by rw [Array.size_append]; omega),
          Array.getElem?_append_right (by omega), Array.getElem?_replicate, if_pos (by omega),
          List.getElem?_eq_none (by omega)]

/-- A gap opened in a full ring moves no element out of order. -/
theorem grow (h : r.Holds xs) (hfull : xs.length = r.capacity) : r.grow.Holds xs := by
  by_cases hhead : r.head = 0
  · exact h.grow_of_head_eq_zero hfull hhead
  · exact h.grow_of_head_pos hfull hhead

theorem capacity_grow (h : r.Holds xs) : r.grow.capacity = nextCapacity r.capacity := by
  have hnext := lt_nextCapacity r.capacity
  have hhead := h.head_lt
  unfold Ring.grow capacity
  split
  · rw [Array.size_append, Array.size_replicate]
    exact Nat.add_sub_cancel' (Nat.le_of_lt hnext)
  · rw [Array.size_append, Array.size_append, Array.size_replicate, Array.size_extract,
      Array.size_extract]
    change r.head < max 1 r.slots.size at hhead
    change r.slots.size < nextCapacity r.slots.size at hnext
    omega

/-- Pushing appends to the elements. -/
theorem push (h : r.Holds xs) : (r.push a).Holds (xs ++ [a]) := by
  have hlen := h.length_le
  have hsize := h.size_eq
  unfold Ring.push
  split
  next hfull =>
    apply (h.grow (by omega)).place
    rw [h.capacity_grow]
    have := lt_nextCapacity r.capacity
    omega
  next hfree => exact h.place (by omega)

end Holds
end Ring
end RowStream
