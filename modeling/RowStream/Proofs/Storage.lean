import Mathlib.Data.List.Induction
import Mathlib.Order.Bounds.Defs
import Mathlib.Order.MinMax
import Mathlib.Order.Monotone.Basic
import RowStream.Proofs.Queueing

/-!
# Storage of queues

The slots of a queue are replaced by more slots when an element is pushed and none of them is free.
Their numbers are the tiers of one sequence, and how far along it a queue is tells the largest
number of elements it has had: storage is never given back, and never taken early.
-/

namespace RowStream

variable {α : Type}

/-! ## 1. Tiers -/

namespace Ring

/-- The numbers of slots that a ring can have, from none on: eight, then twice as many each time,
and from 1024 on a quarter more each time. -/
def tier : Nat → Nat
  | 0 => 0
  | k + 1 =>
    let c := tier k
    if c = 0 then 8 else if c < 1024 then 2 * c else c + c / 4

example : (List.range 11).map tier = [0, 8, 16, 32, 64, 128, 256, 512, 1024, 1280, 1600] := by
  decide

theorem tier_succ (k : Nat) : tier (k + 1) = nextCapacity (tier k) := rfl

theorem strictMono_tier : StrictMono tier :=
  strictMono_nat_of_lt_succ fun k => lt_nextCapacity (tier k)

/-- No tier lies between one and the next. -/
theorem isLeast_tier_succ (k : Nat) :
    IsLeast {c ∈ Set.range tier | tier k + 1 ≤ c} (nextCapacity (tier k)) := by
  refine ⟨⟨⟨k + 1, tier_succ k⟩, lt_nextCapacity (tier k)⟩, ?_⟩
  rintro c ⟨⟨j, rfl⟩, hlt⟩
  have hkj : k < j := strictMono_tier.lt_iff_lt.mp hlt
  rw [← tier_succ]
  exact strictMono_tier.monotone hkj

end Ring

namespace Queue

variable {q q' : Queue α} {a : α} {peak : Nat}

/-! ## 2. One operation -/

theorem size_push : (q.push a).size = q.size + 1 := by
  rw [size_eq_length, toList_push, List.length_append, List.length_singleton, ← size_eq_length]

theorem size_le_capacity : q.size ≤ q.capacity := q.holds.size_eq ▸ q.holds.length_le

/-- Slots are added by a push that finds every slot taken, wherever the first element is. -/
theorem capacity_push :
    (q.push a).capacity =
      if q.size = q.capacity then Ring.nextCapacity q.capacity else q.capacity := by
  show (q.toRing.push a).capacity = _
  unfold Ring.push
  split
  next =>
    show (q.grow.slots.setIfInBounds q.grow.tail (some a)).size = _
    rw [Array.size_setIfInBounds]
    exact q.holds.capacity_grow
  next => exact Array.size_setIfInBounds

theorem capacity_of_pop?_eq_some (h : q.pop? = some (a, q')) : q'.capacity = q.capacity := by
  rw [toRing_of_pop?_eq_some h]
  exact Array.size_setIfInBounds

/-- A queue after one operation. -/
def after (q : Queue α) (op : Operation α) : Queue α := (q.run [op]).1

theorem after_pop : q.after .pop = q ∨ ∃ a, q.pop? = some (a, q.after .pop) := by
  cases hpop : q.pop? with
  | none =>
    left
    simp only [after, run, hpop]
  | some popped =>
    right
    simp only [after, run, hpop]
    exact ⟨popped.1, rfl⟩

/-- Slots are added at full storage only, and only when an element is pushed. -/
theorem capacity_after (op : Operation α) :
    (q.after op).capacity =
      match op with
      | .push _ => if q.size = q.capacity then Ring.nextCapacity q.capacity else q.capacity
      | .pop => q.capacity := by
  cases op with
  | push a => exact capacity_push
  | pop =>
    obtain hsame | ⟨a, hpop⟩ := after_pop (q := q)
    · rw [hsame]
    · exact capacity_of_pop?_eq_some hpop

theorem capacity_le_after (op : Operation α) : q.capacity ≤ (q.after op).capacity := by
  have hnext := Ring.lt_nextCapacity q.capacity
  rw [capacity_after]
  cases op with
  | push a =>
    dsimp only
    split
    · exact Nat.le_of_lt hnext
    · exact Nat.le_refl _
  | pop => exact Nat.le_refl _

/-! ## 3. Storage and the peak -/

/-- A queue that has had `peak` elements at most has the slots of the first tier with room for as
many. -/
structure Provided (q : Queue α) (peak : Nat) : Prop where
  size_le : q.size ≤ peak
  isLeast : IsLeast {c ∈ Set.range Ring.tier | peak ≤ c} q.capacity

theorem provided_empty : (empty : Queue α).Provided 0 where
  size_le := Nat.le_refl _
  isLeast := ⟨⟨⟨0, rfl⟩, Nat.le_refl _⟩, fun _ _ => Nat.zero_le _⟩

/-- A peak that the slots have room for asks for no others. -/
theorem Provided.raise (h : q.Provided peak) (hcapacity : q'.capacity = q.capacity)
    (hsize : q'.size ≤ q.capacity) : q'.Provided (max peak q'.size) where
  size_le := Nat.le_max_right _ _
  isLeast := by
    obtain ⟨⟨htier, hpeak⟩, hleast⟩ := h.isLeast
    rw [hcapacity]
    exact ⟨⟨htier, Nat.max_le.mpr ⟨hpeak, hsize⟩⟩, fun c hc =>
      hleast ⟨hc.1, Nat.le_trans (Nat.le_max_left _ _) hc.2⟩⟩

theorem Provided.push (h : q.Provided peak) :
    (q.push a).Provided (max peak (q.push a).size) := by
  have hsize : (q.push a).size = q.size + 1 := size_push
  have hcapacity : (q.push a).capacity = _ := capacity_push
  by_cases hfull : q.size = q.capacity
  · -- At full storage the elements are as many as ever, so the next tier is the least with room.
    rw [if_pos hfull] at hcapacity
    obtain ⟨⟨⟨k, hk⟩, hpeak⟩, -⟩ := h.isLeast
    have hle := h.size_le
    have hmax : max peak (q.push a).size = Ring.tier k + 1 := by omega
    refine ⟨Nat.le_max_right _ _, ?_⟩
    rw [hmax, hcapacity, ← hk]
    exact Ring.isLeast_tier_succ k
  · rw [if_neg hfull] at hcapacity
    have hlt : q.size < q.capacity := Nat.lt_of_le_of_ne size_le_capacity hfull
    exact h.raise hcapacity (by omega)

theorem Provided.after (h : q.Provided peak) (op : Operation α) :
    (q.after op).Provided (max peak (q.after op).size) := by
  cases op with
  | push a => exact h.push
  | pop =>
    have hcapacity : (q.after .pop).capacity = q.capacity := capacity_after .pop
    have hsize : (q.after .pop).size ≤ (q.after .pop).capacity := size_le_capacity
    exact h.raise hcapacity (hcapacity ▸ hsize)

/-! ## 4. Any sequence of operations -/

theorem run_append (q : Queue α) (ops more : List (Operation α)) :
    (q.run (ops ++ more)).1 = ((q.run ops).1.run more).1 := by
  induction ops generalizing q with
  | nil => rfl
  | cons op ops ih =>
    cases op with
    | push a => exact ih (q.push a)
    | pop =>
      cases hpop : q.pop? with
      | none => simpa only [List.cons_append, run, hpop] using ih q
      | some popped => simpa only [List.cons_append, run, hpop] using ih popped.2

theorem run_concat (q : Queue α) (ops : List (Operation α)) (op : Operation α) :
    (q.run (ops ++ [op])).1 = (q.run ops).1.after op := run_append q ops [op]

/-- The largest number of elements among those that a queue had when it was new and after each of
some operations. -/
theorem exists_peak (ops : List (Operation α)) :
    ∃ peak,
      IsGreatest {n | ∃ before, before <+: ops ∧ ((empty : Queue α).run before).1.size = n} peak ∧
        ((empty : Queue α).run ops).1.Provided peak := by
  induction ops using List.reverseRecOn with
  | nil =>
    refine ⟨0, ⟨⟨[], List.prefix_rfl, rfl⟩, ?_⟩, provided_empty⟩
    rintro n ⟨before, hbefore, rfl⟩
    rw [List.prefix_nil.mp hbefore]
    exact Nat.le_refl _
  | append_singleton ops op ih =>
    obtain ⟨peak, ⟨⟨top, htop, hpeak⟩, hgreatest⟩, hprovided⟩ := ih
    refine ⟨max peak (empty.run (ops ++ [op])).1.size, ⟨?_, ?_⟩, ?_⟩
    · obtain hmax | hmax := max_choice peak (empty.run (ops ++ [op])).1.size
      · exact ⟨top, htop.trans (List.prefix_append ops [op]), hpeak.trans hmax.symm⟩
      · exact ⟨ops ++ [op], List.prefix_rfl, hmax.symm⟩
    · rintro n ⟨before, hbefore, rfl⟩
      obtain hwhole | hearlier := List.prefix_concat_iff.mp hbefore
      · rw [hwhole]
        exact Nat.le_max_right _ _
      · exact Nat.le_trans (hgreatest ⟨before, hearlier, rfl⟩) (Nat.le_max_left _ _)
    · rw [run_concat]
      exact hprovided.after op

theorem capacity_le_run (q : Queue α) (ops : List (Operation α)) :
    q.capacity ≤ (q.run ops).1.capacity := by
  induction ops using List.reverseRecOn with
  | nil => exact Nat.le_refl _
  | append_singleton ops op ih =>
    rw [run_concat]
    exact Nat.le_trans ih (capacity_le_after op)

/-- After any pushes and pops, a queue that started empty has as many slots as the least tier with
room for the most elements it has had at a time.  No operation takes slots away.  A pop adds none;
a push adds none while any slot is free, and gives a full queue strictly more, the next tier. -/
theorem capacity_of_peak (ops : List (Operation α)) :
    let q := ((empty : Queue α).run ops).1
    (∃ peak,
      IsGreatest {n | ∃ before, before <+: ops ∧ ((empty : Queue α).run before).1.size = n} peak ∧
        IsLeast {c ∈ Set.range Ring.tier | peak ≤ c} q.capacity) ∧
      (∀ more, q.capacity ≤ ((empty : Queue α).run (ops ++ more)).1.capacity) ∧
      (empty.run (ops ++ [.pop])).1.capacity = q.capacity ∧
      (∀ a, q.size < q.capacity → (empty.run (ops ++ [.push a])).1.capacity = q.capacity) ∧
      (∀ a, q.size = q.capacity →
        IsLeast {c ∈ Set.range Ring.tier | q.capacity < c}
          (empty.run (ops ++ [.push a])).1.capacity) := by
  intro q
  obtain ⟨peak, hpeak, hprovided⟩ := exists_peak ops
  refine ⟨⟨peak, hpeak, hprovided.isLeast⟩, fun more => ?_, ?_, fun a hfree => ?_,
    fun a hfull => ?_⟩
  · rw [run_append]
    exact capacity_le_run q more
  · rw [run_concat]
    exact capacity_after .pop
  · rw [run_concat]
    exact (capacity_after (.push a)).trans (if_neg (Nat.ne_of_lt hfree))
  · obtain ⟨k, hk⟩ := hprovided.isLeast.1.1
    have hcapacity : (q.after (.push a)).capacity = Ring.nextCapacity q.capacity :=
      (capacity_after (.push a)).trans (if_pos hfull)
    change Ring.tier k = q.capacity at hk
    rw [run_concat]
    show IsLeast _ (q.after (.push a)).capacity
    rw [hcapacity, ← hk]
    exact Ring.isLeast_tier_succ k

/-- Eight elements, all of them in slots and the last three before the first: a pop leaves the eight
slots, and a push asks for the next tier. -/
theorem capacity_of_peak_wrapped :
    let ops : List (Operation Nat) :=
      (List.range 8).map .push ++ List.replicate 3 .pop ++ (List.range' 8 3).map .push
    let q := ((empty : Queue Nat).run ops).1
    q.head = 3 ∧ q.size = 8 ∧ IsLeast {c ∈ Set.range Ring.tier | 8 ≤ c} q.capacity ∧
      (empty.run (ops ++ [.pop])).1.capacity = 8 ∧
      IsLeast {c ∈ Set.range Ring.tier | 8 < c} (empty.run (ops ++ [.push 11])).1.capacity := by
  intro ops q
  obtain ⟨⟨peak, hpeak, hleast⟩, -, hpop, -, hpush⟩ := capacity_of_peak ops
  have hle : peak ≤ 8 := hleast.1.2
  have hge : 8 ≤ peak := hpeak.2 ⟨ops, List.prefix_rfl, rfl⟩
  obtain rfl : peak = 8 := Nat.le_antisymm hle hge
  exact ⟨rfl, rfl, hleast, hpop, hpush 11 rfl⟩

end Queue
end RowStream
