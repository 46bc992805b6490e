import RowStream.Queue.Ring

/-!
# Queues

A first-in first-out queue is a ring that holds the elements it lists.  Elements are appended at
the end and taken from the front.
-/

namespace RowStream

/-- A queue of elements. -/
structure Queue (α : Type) extends Ring α where
  holds : toRing.Holds toRing.toList

namespace Queue

variable {α : Type}

/-- A queue without elements or slots. -/
def empty : Queue α := ⟨.empty, Ring.holds_empty.self⟩

instance : Inhabited (Queue α) := ⟨empty⟩

/-- Whether there is no element. -/
def isEmpty (q : Queue α) : Bool := q.size == 0

/-- Appends an element. -/
def push (q : Queue α) (a : α) : Queue α := ⟨q.toRing.push a, q.holds.push.self⟩

/-- Appends elements in order. -/
def pushAll (q : Queue α) (elements : List α) : Queue α := elements.foldl push q

theorem toList_eq_cons {q : Queue α} {a : α} (h : q.peek? = some a) :
    q.toList = a :: q.toList.tail := by
  obtain ⟨xs, hxs⟩ := List.head?_eq_some_iff.mp (q.holds.peek?_eq ▸ h)
  rw [hxs, List.tail_cons]

/-- The first element and the queue without it. -/
def pop? (q : Queue α) : Option (α × Queue α) :=
  match h : q.peek? with
  | none => none
  | some a => some (a, ⟨q.dropHead, (toList_eq_cons h ▸ q.holds).dropHead.self⟩)

/-! ## The elements after each operation -/

variable {q q' : Queue α} {a : α} {xs : List α}

@[simp] theorem toList_empty : (empty : Queue α).toList = [] := Ring.holds_empty.toList_eq

@[simp] theorem toList_push : (q.push a).toList = q.toList ++ [a] := q.holds.push.toList_eq

@[simp] theorem toList_pushAll : (q.pushAll xs).toList = q.toList ++ xs := by
  induction xs generalizing q with
  | nil => exact (List.append_nil _).symm
  | cons x xs ih =>
    show (pushAll (q.push x) xs).toList = _
    rw [ih, toList_push, List.append_assoc, List.singleton_append]

theorem size_eq_length : q.size = q.toList.length := q.holds.size_eq

theorem peek?_eq_head? : q.peek? = q.toList.head? := q.holds.peek?_eq

theorem toList_of_pop?_eq_none (h : q.pop? = none) : q.toList = [] := by
  unfold pop? at h
  split at h
  next hpeek => rwa [peek?_eq_head?, List.head?_eq_none_iff] at hpeek
  next => cases h

theorem toList_of_pop?_eq_some (h : q.pop? = some (a, q')) : q.toList = a :: q'.toList := by
  unfold pop? at h
  split at h
  next => cases h
  next b hpeek =>
    cases h
    rw [toList_eq_cons hpeek]
    congr 1
    exact (toList_eq_cons hpeek ▸ q.holds).dropHead.toList_eq.symm

theorem pop?_of_toList_eq_nil (h : q.toList = []) : q.pop? = none := by
  cases hpop : q.pop? with
  | none => rfl
  | some popped =>
    rw [toList_of_pop?_eq_some hpop] at h
    cases h

theorem pop?_of_toList_eq_cons (h : q.toList = a :: xs) :
    ∃ q', q.pop? = some (a, q') ∧ q'.toList = xs := by
  cases hpop : q.pop? with
  | none =>
    rw [toList_of_pop?_eq_none hpop] at h
    cases h
  | some popped =>
    obtain ⟨b, q'⟩ := popped
    rw [toList_of_pop?_eq_some hpop] at h
    cases h
    exact ⟨q', rfl, rfl⟩

end Queue
end RowStream
