import Mathlib.Data.List.Forall2
import RowStream.Pseudotype

/-!
# Parts of values

The values that stand inside a JSON value or a row value, at any depth and the value itself
included, and the induction over them.
-/

namespace RowStream

/-! ## 1. Steps that can fail -/

theorem bind_eq_ok_iff {ε α β : Type} {step : Except ε α} {next : α → Except ε β} {b : β} :
    step >>= next = .ok b ↔ ∃ a, step = .ok a ∧ next a = .ok b := by
  cases step with
  | error e =>
    constructor
    · intro h
      cases h
    · rintro ⟨a, h, -⟩
      cases h
  | ok a =>
    constructor
    · exact fun h => ⟨a, rfl, h⟩
    · rintro ⟨a', h, hnext⟩
      cases h
      exact hnext

/-- A step for each of a list succeeds if each step does, with the list of what they give. -/
theorem mapM_eq_ok_iff {ε α β : Type} {step : α → Except ε β} {xs : List α} {ys : List β} :
    xs.mapM step = .ok ys ↔ List.Forall₂ (fun x y => step x = .ok y) xs ys := by
  induction xs generalizing ys with
  | nil =>
    rw [List.mapM_nil, List.forall₂_nil_left_iff]
    exact ⟨fun h => by cases h; rfl, fun h => by rw [h]; rfl⟩
  | cons x xs ih =>
    rw [List.mapM_cons, bind_eq_ok_iff, List.forall₂_cons_left_iff]
    constructor
    · rintro ⟨y, hy, h⟩
      obtain ⟨ys, hys, h⟩ := bind_eq_ok_iff.mp h
      cases h
      exact ⟨y, ys, hy, ih.mp hys, rfl⟩
    · rintro ⟨y, ys, hy, hys, rfl⟩
      exact ⟨y, hy, bind_eq_ok_iff.mpr ⟨ys, ih.mpr hys, rfl⟩⟩

-- Values that correspond are related, if each step relates what it is given to what it gives.
theorem forall₂_of_mapM {ε α β : Type} {step : α → Except ε β} {R : α → β → Prop}
    {xs : List α} {ys : List β} (h : xs.mapM step = .ok ys)
    (hR : ∀ x ∈ xs, ∀ y, step x = .ok y → R x y) : List.Forall₂ R xs ys :=
  ((List.forall₂_and_left _ _).mpr ⟨hR, mapM_eq_ok_iff.mp h⟩).imp fun _ y hxy => hxy.1 y hxy.2

theorem mapM_congr {ε α β : Type} {step other : α → Except ε β} {xs : List α}
    (h : ∀ x ∈ xs, step x = other x) : xs.mapM step = xs.mapM other := by
  induction xs with
  | nil => rfl
  | cons x xs ih =>
    rw [List.forall_mem_cons] at h
    rw [List.mapM_cons, List.mapM_cons, h.1, ih h.2]

theorem mapM_eq_ok_map {ε α β : Type} {step : α → Except ε β} {f : α → β} {xs : List α}
    (h : ∀ x ∈ xs, step x = .ok (f x)) : xs.mapM step = .ok (xs.map f) := by
  rw [mapM_eq_ok_iff, List.forall₂_map_right_iff, List.forall₂_same]
  exact h

-- What a relation carries over from the left of two lists holds on the right.
theorem forall_mem_of_forall₂ {α β : Type} {R : α → β → Prop} {P : β → Prop} {xs : List α}
    {ys : List β} (h : List.Forall₂ R xs ys) (hP : ∀ x ∈ xs, ∀ y, R x y → P y) :
    ∀ y ∈ ys, P y := by
  induction h with
  | nil => exact fun _ hy => by cases hy
  | cons hxy _ ih =>
    rw [List.forall_mem_cons] at hP ⊢
    exact ⟨hP.1 _ hxy, ih hP.2⟩

/-! ## 2. Members -/

namespace Members

variable {α : Type} {key : String} {members : List (String × α)}

theorem mem_of_get? {value : α} (h : get? key members = some value) : (key, value) ∈ members := by
  simp only [get?, Option.map_eq_some_iff] at h
  obtain ⟨⟨k, v⟩, hfind, rfl⟩ := h
  have hkey := List.find?_some hfind
  simp only [beq_iff_eq] at hkey
  subst hkey
  exact List.mem_of_find?_eq_some hfind

theorem get?_cons (k : String) (value : α) :
    get? key ((k, value) :: members) = if k = key then some value else get? key members := by
  by_cases h : k = key <;> simp [get?, h]

-- Members that correspond, key by key, are found under the same keys.
theorem get?_of_forall₂ {β : Type} {R : α → β → Prop} {others : List (String × β)}
    (h : List.Forall₂ (fun member other => other.1 = member.1 ∧ R member.2 other.2) members others)
    {other : β} (hget : get? key others = some other) :
    ∃ value, get? key members = some value ∧ R value other := by
  induction h with
  | nil => cases hget
  | @cons member first members others hfirst _ ih =>
    obtain ⟨hkey, hR⟩ := hfirst
    rw [get?_cons] at hget ⊢
    rw [hkey] at hget
    by_cases h : member.1 = key
    · rw [if_pos h] at hget ⊢
      cases hget
      exact ⟨member.2, rfl, hR⟩
    · rw [if_neg h] at hget ⊢
      exact ih hget

end Members

/-! ## 3. Parts -/

/-- A JSON value stands somewhere in another. -/
inductive Json.Part (part : Json) : Json → Prop
  | self : Part part part
  | item {items : List Json} {item : Json} (hmem : item ∈ items) (hpart : Part part item) :
    Part part (.array items)
  | member {members : List (String × Json)} {member : String × Json} (hmem : member ∈ members)
    (hpart : Part part member.2) : Part part (.object members)

theorem Json.Part.trans {part middle whole : Json} (h : Part part middle) (h' : Part middle whole) :
    Part part whole := by
  induction h' with
  | self => exact h
  | item hmem _ ih => exact .item hmem ih
  | member hmem _ ih => exact .member hmem ih

/-- A row value stands somewhere in another. -/
inductive Datum.Part (part : Datum) : Datum → Prop
  | self : Part part part
  | item {items : List Datum} {item : Datum} (hmem : item ∈ items) (hpart : Part part item) :
    Part part (.array items)
  | member {members : List (String × Datum)} {member : String × Datum} (hmem : member ∈ members)
    (hpart : Part part member.2) : Part part (.object members)

theorem Json.sizeOf_lt_of_mem {member : String × Json} {members : List (String × Json)}
    (h : member ∈ members) : sizeOf member.2 < sizeOf members := by
  have hlt := List.sizeOf_lt_of_mem h
  have hmember : sizeOf member = 1 + sizeOf member.1 + sizeOf member.2 := rfl
  omega

/-- What holds of a value if it holds of the items of an array and of the values of the members of
an object holds of every value. -/
@[elab_as_elim]
theorem Json.induction {motive : Json → Prop} (null : motive .null)
    (bool : ∀ b, motive (.bool b)) (number : ∀ n, motive (.number n))
    (string : ∀ s, motive (.string s))
    (array : ∀ items, (∀ item ∈ items, motive item) → motive (.array items))
    (object : ∀ members, (∀ member ∈ members, motive member.2) → motive (.object members))
    (v : Json) : motive v := by
  induction hsize : sizeOf v using Nat.strongRecOn generalizing v with
  | ind n ih =>
    cases v with
    | null => exact null
    | bool b => exact bool b
    | number n => exact number n
    | string s => exact string s
    | array items =>
      refine array items fun item hmem => ih (sizeOf item) ?_ item rfl
      have hlt := List.sizeOf_lt_of_mem hmem
      rw [Json.array.sizeOf_spec] at hsize
      omega
    | object members =>
      refine object members fun member hmem => ih (sizeOf member.2) ?_ member.2 rfl
      have hlt := Json.sizeOf_lt_of_mem hmem
      rw [Json.object.sizeOf_spec] at hsize
      omega

end RowStream
