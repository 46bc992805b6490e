import RowStream.Proofs.Decode
import RowStream.Proofs.Parts

/-!
# Filling lists and maps

The items of a list are decoded one after the other, each into a fresh destination.  Either each of
them fits, or the first that does not gives the error, and what is left is what the items before it
gave.  The members of a map are decoded as the items of a list are, with their keys carried along.
The JSON form of a list or map is read in the same way.
-/

namespace RowStream

namespace Filled

variable {α β γ : Type}

/-! ## 1. Parts of outcomes -/

/-- An outcome for a part of what the destination holds, as one for the whole. -/
def image (f : α → γ) : Filled α → Filled γ
  | done value => done (f value)
  | failed e left => failed e (f left)

section

variable {f : α → γ} {outcome : Filled α} {c : γ} {e : DecodeError}

theorem image_eq_done_iff :
    outcome.image f = done c ↔ ∃ value, outcome = done value ∧ f value = c := by
  cases outcome <;> simp [image]

theorem image_eq_failed_iff :
    outcome.image f = failed e c ↔ ∃ left, outcome = failed e left ∧ f left = c := by
  cases outcome with
  | done => simp [image]
  | failed e' left =>
    simp only [image, failed.injEq]
    constructor
    · rintro ⟨he, hc⟩
      exact ⟨left, ⟨he, rfl⟩, hc⟩
    · rintro ⟨left', ⟨he, rfl⟩, hc⟩
      exact ⟨he, hc⟩

end

/-! ## 2. Items -/

section

variable {decode : β → Filled α} {item : β} {items : List β} {e : DecodeError}

theorem all_cons_of_failed {lost : α} (h : decode item = failed e lost) :
    all decode (item :: items) = failed e [] := by
  rw [all, h]

theorem all_cons_of_done {value : α} (h : decode item = done value) :
    all decode (item :: items) = (all decode items).image (value :: ·) := by
  rw [all, h]
  cases hitems : all decode items <;> simp only [image]

theorem all_eq_done_iff {values : List α} : all decode items = done values ↔
    List.Forall₂ (fun item value => decode item = done value) items values := by
  induction items generalizing values with
  | nil =>
    rw [List.forall₂_nil_left_iff]
    exact ⟨fun h => by cases h; rfl, fun h => by rw [h]; rfl⟩
  | cons item items ih =>
    rw [List.forall₂_cons_left_iff]
    constructor
    · intro h
      cases hitem : decode item with
      | failed e lost =>
        rw [all_cons_of_failed hitem] at h
        cases h
      | done value =>
        rw [all_cons_of_done hitem, image_eq_done_iff] at h
        obtain ⟨rest, hrest, rfl⟩ := h
        exact ⟨value, rest, rfl, ih.mp hrest, rfl⟩
    · rintro ⟨value, rest, hitem, hrest, rfl⟩
      rw [all_cons_of_done hitem, ih.mpr hrest, image]

/-- Items that do not all fit are cut at the first that fails. -/
theorem all_eq_failed_iff {left : List α} : all decode items = failed e left ↔
    ∃ before item after lost, items = before ++ item :: after ∧
      List.Forall₂ (fun item value => decode item = done value) before left ∧
      decode item = failed e lost := by
  induction items generalizing left with
  | nil =>
    constructor
    · intro h
      cases h
    · rintro ⟨before, item, after, lost, hsplit, -⟩
      simp at hsplit
  | cons first items ih =>
    constructor
    · intro h
      cases hfirst : decode first with
      | failed e' lost =>
        rw [all_cons_of_failed hfirst] at h
        cases h
        exact ⟨[], first, items, lost, rfl, .nil, hfirst⟩
      | done value =>
        rw [all_cons_of_done hfirst, image_eq_failed_iff] at h
        obtain ⟨rest, hrest, rfl⟩ := h
        obtain ⟨before, item, after, lost, rfl, hbefore, hitem⟩ := ih.mp hrest
        exact ⟨first :: before, item, after, lost, rfl, .cons hfirst hbefore, hitem⟩
    · rintro ⟨before, item, after, lost, hsplit, hbefore, hitem⟩
      cases hbefore with
      | nil =>
        obtain ⟨rfl, rfl⟩ := List.cons.inj hsplit
        exact all_cons_of_failed hitem
      | @cons _ value before rest hfirst hbefore =>
        obtain ⟨rfl, rfl⟩ := List.cons.inj hsplit
        rw [all_cons_of_done hfirst, ih.mpr ⟨before, item, after, lost, rfl, hbefore, hitem⟩, image]

end

/-! ## 3. Members -/

section

variable {decode : β → Filled α} {members : List (String × β)}

theorem allMembers_eq_all : allMembers decode members =
    all (fun member => (decode member.2).image (member.1, ·)) members := by
  induction members with
  | nil => rfl
  | cons member members ih =>
    rw [allMembers, all, ih]
    generalize all (fun member => (decode member.2).image (member.1, ·)) members = rest
    cases decode member.2 <;> cases rest <;> rfl

theorem image_key_eq_done_iff {key : String} {outcome : Filled α} {entry : String × α} :
    outcome.image (key, ·) = done entry ↔ entry.1 = key ∧ outcome = done entry.2 := by
  rw [image_eq_done_iff]
  constructor
  · rintro ⟨value, hvalue, rfl⟩
    exact ⟨rfl, hvalue⟩
  · rintro ⟨hkey, hvalue⟩
    exact ⟨entry.2, hvalue, by rw [← hkey]⟩

theorem allMembers_eq_done_iff {entries : List (String × α)} :
    allMembers decode members = done entries ↔
      List.Forall₂ (fun member entry => entry.1 = member.1 ∧ decode member.2 = done entry.2)
        members entries := by
  simp only [allMembers_eq_all, all_eq_done_iff, image_key_eq_done_iff]

/-- Members that do not all fit are cut at the first whose value fails. -/
theorem allMembers_eq_failed_iff {e : DecodeError} {left : List (String × α)} :
    allMembers decode members = failed e left ↔
      ∃ before key item after lost, members = before ++ (key, item) :: after ∧
        List.Forall₂ (fun member entry => entry.1 = member.1 ∧ decode member.2 = done entry.2)
          before left ∧
        decode item = failed e lost := by
  simp only [allMembers_eq_all, all_eq_failed_iff, image_key_eq_done_iff, image_eq_failed_iff]
  constructor
  · rintro ⟨before, ⟨key, item⟩, after, _, hsplit, hbefore, lost, hitem, -⟩
    exact ⟨before, key, item, after, lost, hsplit, hbefore, hitem⟩
  · rintro ⟨before, key, item, after, lost, hsplit, hbefore, hitem⟩
    exact ⟨before, (key, item), after, (key, lost), hsplit, hbefore, lost, hitem, rfl⟩

end

end Filled

/-! ## 4. The JSON form -/

namespace Datum

theorem toJsonItems_eq (items : List Datum) : toJsonItems items = items.map toJson := by
  induction items with
  | nil => rfl
  | cons item items ih => rw [toJsonItems, ih, List.map_cons]

theorem toJsonMembers_eq (members : List (String × Datum)) :
    toJsonMembers members = members.map fun member => (member.1, member.2.toJson) := by
  induction members with
  | nil => rfl
  | cons member members ih => rw [toJsonMembers, ih, List.map_cons]

theorem toJson_ne_null {d : Datum} (h : d ≠ .null) : d.toJson ≠ .null := by
  cases d with
  | null => exact absurd rfl h
  | _ => exact Json.noConfusion

end Datum

namespace Json

variable {α : Type} {read : Json → Except Fault α}

theorem readOption_eq_ok_iff {v : Json} {value : Option α} (hv : v ≠ .null) :
    readOption read v = .ok value ↔ ∃ x, read v = .ok x ∧ some x = value := by
  unfold readOption
  split
  · exact absurd rfl hv
  · rw [bind_eq_ok_iff]
    simp only [pure, Except.pure, Except.ok.injEq]

theorem readList_toJson_eq_ok_iff {items : List Datum} {values : List α} :
    readList read (Datum.array items).toJson = .ok values ↔
      List.Forall₂ (fun item value => read item.toJson = .ok value) items values := by
  rw [Datum.toJson, Datum.toJsonItems_eq, readList, mapM_eq_ok_iff, List.forall₂_map_left_iff]

theorem readMap_toJson_eq_ok_iff {members : List (String × Datum)} {values : List (String × α)} :
    readMap read (Datum.object members).toJson = .ok values ↔
      List.Forall₂ (fun member value => value.1 = member.1 ∧ read member.2.toJson = .ok value.2)
        members values := by
  have hmember (member : String × Json) (value : String × α) :
      (do return (member.1, ← read member.2)) = Except.ok (ε := Fault) value ↔
        value.1 = member.1 ∧ read member.2 = .ok value.2 := by
    rw [bind_eq_ok_iff]
    constructor
    · rintro ⟨x, hx, h⟩
      cases h
      exact ⟨rfl, hx⟩
    · rintro ⟨hkey, hx⟩
      exact ⟨value.2, hx, by rw [← hkey]; rfl⟩
  simp only [Datum.toJson, Datum.toJsonMembers_eq, readMap, mapM_eq_ok_iff,
    List.forall₂_map_left_iff, hmember]

end Json
end RowStream
