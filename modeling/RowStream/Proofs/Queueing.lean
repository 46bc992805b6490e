import RowStream.Queue

/-!
# Queues as lists

After any pushes and pops a queue answers as the list of its elements does.  Its slots are reached
by number: here every access is made on the condition that there is such a slot, and all succeed.
-/

namespace RowStream

variable {α : Type}

/-! ## 1. Pushes and pops -/

/-- What changes a queue. -/
inductive Queue.Operation (α : Type)
  | push (a : α)
  | pop

/-- A queue after some operations, and what the pops among them gave. -/
def Queue.run (q : Queue α) : List (Operation α) → Queue α × List (Option α)
  | [] => (q, [])
  | .push a :: ops => (q.push a).run ops
  | .pop :: ops =>
    match q.pop? with
    | some (a, q) => ((q.run ops).1, some a :: (q.run ops).2)
    | none => ((q.run ops).1, none :: (q.run ops).2)

/-- The same operations on a list: elements are appended at the end and taken from the front. -/
def Queue.runList (xs : List α) : List (Operation α) → List α × List (Option α)
  | [] => (xs, [])
  | .push a :: ops => runList (xs ++ [a]) ops
  | .pop :: ops => ((runList xs.tail ops).1, xs.head? :: (runList xs.tail ops).2)

/-! ## 2. Accesses on condition -/

namespace Ring

/-- Writes a slot, if there is one of this number. -/
def write? (slots : Array (Option α)) (place : Nat) (x : Option α) :
    Option (Array (Option α)) :=
  if h : place < slots.size then some (slots.set place x) else none

/-- Copies `n` slots of one array, from the slot `start` on, over those of another from the slot
`base` on, if both arrays have all these slots. -/
def copy? (source target : Array (Option α)) (start base : Nat) :
    Nat → Option (Array (Option α))
  | 0 => some target
  | n + 1 => do
    let target ← copy? source target start base n
    let x ← source[start + n]?
    write? target (base + n) x

/-- A difference, if it is not negative. -/
def difference? (m n : Nat) : Option Nat := if n ≤ m then some (m - n) else none

/-- The place after another one in a ring, if it has slots. -/
def following? (place capacity : Nat) : Option Nat :=
  if capacity = 0 then none else some ((place + 1) % capacity)

/-- Moves the elements of a full ring into a larger one, slot by slot. -/
def grow? (r : Ring α) : Option (Ring α) := do
  let slots := Array.replicate (nextCapacity r.capacity) none
  if r.head = 0 then
    let slots ← copy? r.slots slots 0 0 r.capacity
    return { r with slots, tail := r.capacity }
  else
    let moved ← difference? r.capacity r.head
    let head ← difference? (nextCapacity r.capacity) moved
    let slots ← copy? r.slots slots 0 0 r.head
    let slots ← copy? r.slots slots r.head head moved
    return { r with slots, head }

/-- Writes an element into the slot at the tail. -/
def place? (r : Ring α) (a : α) : Option (Ring α) := do
  let slots ← write? r.slots r.tail (some a)
  let tail ← following? r.tail r.capacity
  return { r with slots, tail, size := r.size + 1 }

/-- Appends an element, in a larger ring if the ring is full. -/
def push? (r : Ring α) (a : α) : Option (Ring α) :=
  if r.size = r.capacity then r.grow?.bind fun r => r.place? a else r.place? a

/-- Takes the first element out of its slot; an empty ring is left alone. -/
def pop? (r : Ring α) : Option (Option α × Ring α) :=
  if r.size = 0 then some (none, r)
  else do
    let x ← r.slots[r.head]?
    let slots ← write? r.slots r.head none
    let head ← following? r.head r.capacity
    return (x, { r with slots, head, size := r.size - 1 })

/-- Looks at the slot of the first element; an empty ring has none. -/
def first? (r : Ring α) : Option (Option α) := if r.size = 0 then some none else r.slots[r.head]?

/-- A ring after some operations, and what the pops among them gave, if all slots that are asked
for exist. -/
def run? (r : Ring α) : List (Queue.Operation α) → Option (Ring α × List (Option α))
  | [] => some (r, [])
  | .push a :: ops => do (← r.push? a).run? ops
  | .pop :: ops => do
    let (x, r) ← r.pop?
    let (r, popped) ← r.run? ops
    return (r, x :: popped)

/-! ## 3. All accesses succeed -/

theorem write?_eq {slots : Array (Option α)} {place : Nat} (x : Option α)
    (h : place < slots.size) : write? slots place x = some (slots.setIfInBounds place x) := by
  rw [write?, dif_pos h, Array.setIfInBounds, dif_pos h]

theorem difference?_eq {m n : Nat} (h : n ≤ m) : difference? m n = some (m - n) := if_pos h

theorem following?_eq {capacity : Nat} (place : Nat) (h : 0 < capacity) :
    following? place capacity = some ((place + 1) % capacity) := if_neg (Nat.ne_of_gt h)

/-- Copied slots are those of the source, and the others are as they were. -/
theorem copy?_eq (source target : Array (Option α)) (start base n : Nat)
    (hsource : start + n ≤ source.size) (htarget : base + n ≤ target.size) :
    ∃ slots, copy? source target start base n = some slots ∧ slots.size = target.size ∧
      ∀ i, slots[i]? =
        if base ≤ i ∧ i < base + n then source[start + (i - base)]? else target[i]? := by
  induction n with
  | zero =>
    refine ⟨target, rfl, rfl, fun i => ?_⟩
    rw [if_neg (by omega)]
  | succ n ih =>
    obtain ⟨slots, hcopy, hsize, hslots⟩ := ih (by omega) (by omega)
    have hread : source[start + n]? = some source[start + n] :=
      Array.getElem?_eq_getElem (by omega)
    refine ⟨slots.setIfInBounds (base + n) source[start + n], ?_, ?_, fun i => ?_⟩
    · rw [copy?, hcopy, hread]
      exact write?_eq _ (by omega)
    · rw [Array.size_setIfInBounds, hsize]
    · by_cases hlast : i = base + n
      · rw [hlast, Array.getElem?_setIfInBounds_self_of_lt (by omega), if_pos (by omega),
          Nat.add_sub_cancel_left, hread]
      · rw [Array.getElem?_setIfInBounds_ne (by omega), hslots]
        by_cases hcopied : base ≤ i ∧ i < base + n
        · rw [if_pos hcopied, if_pos (by omega)]
        · rw [if_neg hcopied, if_neg (by omega)]

namespace Holds

variable {r : Ring α} {xs : List α} {a : α}

/-- A gap opened slot by slot is the gap that is opened at once. -/
theorem grow?_eq (h : r.Holds xs) : r.grow? = some r.grow := by
  have hnext := lt_nextCapacity r.capacity
  have hsize : r.slots.size = r.capacity := rfl
  have hfree : (Array.replicate (nextCapacity r.capacity) (none : Option α)).size =
    nextCapacity r.capacity := Array.size_replicate
  unfold Ring.grow? Ring.grow
  by_cases hzero : r.head = 0
  · obtain ⟨slots, hcopy, -, hslots⟩ :=
      copy?_eq r.slots (.replicate (nextCapacity r.capacity) none) 0 0 r.capacity (by omega) (by omega)
    have heq : slots =
        r.slots ++ Array.replicate (nextCapacity r.capacity - r.capacity) none := by
      apply Array.ext_getElem?
      intro i
      rw [hslots, Array.getElem?_append, Array.getElem?_replicate, Array.getElem?_replicate]
      grind
    rw [if_pos hzero, if_pos hzero, hcopy, heq]
    rfl
  · have hhead : r.head < r.capacity := by
      have := h.head_lt
      omega
    obtain ⟨front, hfront, hfrontSize, hfrontSlots⟩ :=
      copy?_eq r.slots (.replicate (nextCapacity r.capacity) none) 0 0 r.head (by omega)
        (by omega)
    obtain ⟨slots, hcopy, hslotsSize, hslots⟩ :=
      copy?_eq r.slots front r.head (nextCapacity r.capacity - (r.capacity - r.head))
        (r.capacity - r.head) (by omega) (by omega)
    have heq : slots = r.slots.extract 0 r.head ++
        Array.replicate (nextCapacity r.capacity - r.capacity) none ++
          r.slots.extract r.head r.capacity := by
      apply Array.ext_getElem?
      intro i
      rw [hslots, hfrontSlots, Array.getElem?_append, Array.getElem?_append,
        Array.getElem?_replicate, Array.getElem?_replicate]
      simp only [Array.getElem?_extract, Array.size_extract, Array.size_append, Array.size_replicate]
      grind
    have hmoved : difference? r.capacity r.head = some (r.capacity - r.head) :=
      difference?_eq (Nat.le_of_lt hhead)
    have hnewHead : difference? (nextCapacity r.capacity) (r.capacity - r.head) =
        some (nextCapacity r.capacity - (r.capacity - r.head)) := difference?_eq (by omega)
    simp only [if_neg hzero, Option.bind_eq_bind, hmoved, Option.bind_some, hnewHead, hfront, hcopy,
      heq]
    rfl

theorem place?_eq (h : r.Holds xs) (hfree : xs.length < r.capacity) :
    r.place? a = some (r.place a) := by
  have htail : r.tail < r.slots.size := h.tail_eq ▸ Nat.mod_lt _ (by omega)
  have hnext : following? r.tail r.capacity = some ((r.tail + 1) % r.capacity) :=
    following?_eq r.tail (Nat.zero_lt_of_lt hfree)
  unfold Ring.place?
  rw [write?_eq (some a) htail, hnext]
  rfl

theorem push?_eq (h : r.Holds xs) : r.push? a = some (r.push a) := by
  have hsize := h.size_eq
  have hlen := h.length_le
  have hnext := lt_nextCapacity r.capacity
  unfold Ring.push? Ring.push
  by_cases hfull : r.size = r.capacity
  · rw [if_pos hfull, if_pos hfull, h.grow?_eq, Option.bind_some]
    apply (h.grow (by omega)).place?_eq
    rw [h.capacity_grow]
    omega
  · rw [if_neg hfull, if_neg hfull]
    exact h.place?_eq (by omega)

/-- The first element is in the slot of the head. -/
theorem slot_head {x : α} (h : r.Holds (x :: xs)) :
    r.head < r.capacity ∧ r.slots[r.head]? = some (some x) := by
  have hlen := h.length_le
  rw [List.length_cons] at hlen
  have hhead := h.head_lt_capacity (by omega)
  have hslot := h.slot_eq 0 (by omega)
  rw [Nat.add_zero, Nat.mod_eq_of_lt hhead] at hslot
  exact ⟨hhead, hslot⟩

theorem pop?_of_nil (h : r.Holds []) : r.pop? = some (none, r) := if_pos h.size_eq

theorem pop?_of_cons {x : α} (h : r.Holds (x :: xs)) : r.pop? = some (some x, r.dropHead) := by
  obtain ⟨hhead, hslot⟩ := h.slot_head
  have hsize := h.size_eq
  have hnext : following? r.head r.capacity = some ((r.head + 1) % r.capacity) :=
    following?_eq r.head (Nat.zero_lt_of_lt hhead)
  rw [List.length_cons] at hsize
  unfold Ring.pop?
  rw [if_neg (by omega), hslot, write?_eq none hhead, hnext]
  rfl

theorem first?_eq (h : r.Holds xs) : r.first? = some xs.head? := by
  have hsize := h.size_eq
  unfold Ring.first?
  cases xs with
  | nil => exact if_pos hsize
  | cons x xs =>
    rw [List.length_cons] at hsize
    rw [if_neg (by omega), h.slot_head.2]
    rfl

/-- The slots that no element is in are free. -/
theorem slot_free (h : r.Holds xs) {place : Nat} (hplace : place < r.capacity)
    (hnone : ∀ i < xs.length, place ≠ (r.head + i) % r.capacity) :
    r.slots[place]? = some none := by
  have hhead := h.head_lt_capacity (Nat.zero_lt_of_lt hplace)
  -- Every slot is some number of places after the head.
  let i := if r.head ≤ place then place - r.head else place + r.capacity - r.head
  have hi : i < r.capacity := by
    unfold i
    split <;> omega
  have hwrap : (r.head + i) % r.capacity = place := by
    rw [wrap_eq hhead (Nat.le_of_lt hi)]
    unfold i
    split <;> split <;> omega
  have hslot := h.slot_eq i hi
  rw [hwrap] at hslot
  rw [hslot, List.getElem?_eq_none]
  exact Nat.le_of_not_lt fun hlt => hnone i hlt hwrap.symm

end Holds
end Ring

/-! ## 4. Any sequence of operations -/

namespace Queue

theorem toRing_of_pop?_eq_some {q q' : Queue α} {a : α} (h : q.pop? = some (a, q')) :
    q'.toRing = q.dropHead := by
  unfold pop? at h
  split at h
  · cases h
  · cases h
    rfl

/-- A queue and its ring go through the same states as the list of its elements, and every pop gives
the same. -/
theorem run_eq (q : Queue α) (ops : List (Operation α)) :
    (q.run ops).1.toList = (runList q.toList ops).1 ∧
      (q.run ops).2 = (runList q.toList ops).2 ∧
      q.toRing.run? ops = some ((q.run ops).1.toRing, (q.run ops).2) := by
  induction ops generalizing q with
  | nil => exact ⟨rfl, rfl, rfl⟩
  | cons op ops ih =>
    cases op with
    | push a =>
      obtain ⟨hlist, hpopped, hring⟩ := ih (q.push a)
      rw [toList_push] at hlist hpopped
      refine ⟨hlist, hpopped, ?_⟩
      rw [Ring.run?, q.holds.push?_eq]
      exact hring
    | pop =>
      cases hq : q.toList with
      | nil =>
        obtain ⟨hlist, hpopped, hring⟩ := ih q
        rw [hq] at hlist hpopped
        have hnone := pop?_of_toList_eq_nil hq
        have hpop : q.toRing.pop? = some (none, q.toRing) := (hq ▸ q.holds).pop?_of_nil
        simp only [run, hnone, runList, Ring.run?, hpop]
        refine ⟨hlist, congrArg (none :: ·) hpopped, ?_⟩
        rw [Option.bind_eq_bind, Option.bind_some, hring]
        rfl
      | cons x xs =>
        obtain ⟨q', hpop, rfl⟩ := pop?_of_toList_eq_cons hq
        obtain ⟨hlist, hpopped, hring⟩ := ih q'
        have hchecked : q.toRing.pop? = some (some x, q'.toRing) := by
          rw [toRing_of_pop?_eq_some hpop]
          exact (hq ▸ q.holds).pop?_of_cons
        simp only [run, hpop, runList, List.tail_cons, List.head?_cons, Ring.run?, hchecked]
        refine ⟨hlist, congrArg (some x :: ·) hpopped, ?_⟩
        rw [Option.bind_eq_bind, Option.bind_some, hring]
        rfl

/-- A queue that starts empty answers as a list does, whatever is pushed and popped: every pop, and
every look at the first element, the size and whether there is an element.  All slots that this asks
for exist.  The slots from the head on hold the elements of the list in order, and no other slot
holds an element. -/
theorem answers_as_list (ops : List (Operation α)) :
    let q := ((empty : Queue α).run ops).1
    let xs := (runList [] ops).1
    (empty.run ops).2 = (runList [] ops).2 ∧
      q.peek? = xs.head? ∧ q.size = xs.length ∧ q.isEmpty = xs.isEmpty ∧
      Ring.empty.run? ops = some (q.toRing, (runList [] ops).2) ∧ q.first? = some xs.head? ∧
      (∀ i x, xs[i]? = some x → (q.head + i) % q.capacity < q.capacity ∧
        q.slots[(q.head + i) % q.capacity]? = some (some x)) ∧
      (∀ place < q.capacity, (∀ i < xs.length, place ≠ (q.head + i) % q.capacity) →
        q.slots[place]? = some none) := by
  intro q xs
  obtain ⟨hlist, hpopped, hring⟩ := run_eq (empty : Queue α) ops
  rw [toList_empty] at hlist hpopped
  have hholds : q.Holds xs := by
    have hself := q.holds
    rwa [hlist] at hself
  have hsize : q.size = xs.length := hholds.size_eq
  refine ⟨hpopped, hholds.peek?_eq, hsize, ?_, hpopped ▸ hring, hholds.first?_eq, ?_, ?_⟩
  · rw [isEmpty, hsize]
    cases xs <;> rfl
  · intro i x hx
    have hi : i < q.capacity :=
      Nat.lt_of_lt_of_le (List.getElem?_eq_some_iff.mp hx).1 hholds.length_le
    exact ⟨Nat.mod_lt _ (Nat.zero_lt_of_lt hi), hx ▸ hholds.slot_eq i hi⟩
  · exact fun place hplace hnone => hholds.slot_free hplace hnone

/-- Eight elements fill a queue; three are popped, and the last of the next six has it grow while its
elements wrap.  The element `8`, pushed first after the wrap, and a free slot in the gap. -/
theorem answers_as_list_wrapped :
    let ops : List (Operation Nat) :=
      (List.range 8).map .push ++ List.replicate 3 .pop ++ (List.range' 8 6).map .push
    let q := ((empty : Queue Nat).run ops).1
    (empty.run ops).2 = [some 0, some 1, some 2] ∧ q.peek? = some 3 ∧ q.size = 11 ∧
      Ring.empty.run? ops = some (q.toRing, [some 0, some 1, some 2]) ∧
      q.slots[(q.head + 5) % q.capacity]? = some (some 8) ∧ q.slots[6]? = some none := by
  intro ops q
  obtain ⟨hpopped, hpeek, hsize, -, hring, -, hlive, hfree⟩ := answers_as_list ops
  have hhead : q.head = 11 := rfl
  have hcapacity : q.capacity = 16 := rfl
  have hplace : 6 < q.capacity := by omega
  refine ⟨hpopped, hpeek, hsize, hring, (hlive 5 8 rfl).2, hfree 6 hplace fun i hi => ?_⟩
  change i < 11 at hi
  show 6 ≠ (q.head + i) % q.capacity
  rw [hhead, hcapacity]
  omega

end Queue
end RowStream
