import RowStream.Proofs.Filling

/-!
# What a failed row leaves behind

A destination is a leaf, or an option, a list or a map of destinations.  When a row does not fit,
what the destination holds afterwards is decided by its outermost shape: a leaf and an unordered map
are as they were, an option is empty, and a list or map holds what was decoded before the first
failure.  The error is that of the first leaf that fails in the order of the row.
-/

namespace RowStream

/-! ## 1. Shapes -/

/-- The shapes of destinations: leaves, each with what a fresh one holds and how it is read off a
row, and options, lists and maps. -/
inductive Shape : Type → Type 1
  | leaf {α : Type} (blank : α) (read : Datum → Except DecodeError α) : Shape α
  | option {α : Type} (s : Shape α) : Shape (Option α)
  | list {α : Type} (s : Shape α) : Shape (List α)
  | map {α : Type} (s : Shape α) : Shape (List (String × α))
  | unorderedMap {α : Type} (s : Shape α) : Shape (List (String × α))

namespace Shape

/-- What a fresh destination holds. -/
def blank : {α : Type} → Shape α → α
  | _, leaf blank _ => blank
  | _, option _ => none
  | _, list _ => []
  | _, map _ => []
  | _, unorderedMap _ => []

/-- Decodes a row into a destination. -/
def decode : {α : Type} → Shape α → α → Datum → Filled α
  | _, leaf _ read, old, row => .ofExcept old (read row)
  | _, option s, old, row => .option s.blank s.decode old row
  | _, list s, old, row => .list s.blank s.decode old row
  | _, map s, old, row => .map s.blank s.decode old row
  | _, unorderedMap s, old, row => .unorderedMap s.blank s.decode old row

/-- A row fits a fresh destination and leaves a value there. -/
def Gives {α : Type} (s : Shape α) (row : Datum) (value : α) : Prop :=
  s.decode s.blank row = .done value

/-- A row does not fit a fresh destination. -/
def Refuses {α : Type} (s : Shape α) (row : Datum) : Prop :=
  ∃ e left, s.decode s.blank row = .failed e left

/-- What a row that does not fit leaves in a destination. -/
def Leaves : {α : Type} → Shape α → (old : α) → (row : Datum) → (left : α) → Prop
  | _, leaf _ _, old, _, left => left = old
  | _, option _, _, _, left => left = none
  | _, list s, _, .array items, left => ∃ before item after,
      items = before ++ item :: after ∧ List.Forall₂ s.Gives before left ∧ s.Refuses item
  | _, list _, old, _, left => left = old
  | _, map s, _, .object members, left => ∃ before key item after,
      members = before ++ (key, item) :: after ∧
      List.Forall₂ (fun member entry => entry.1 = member.1 ∧ s.Gives member.2 entry.2) before left ∧
      s.Refuses item ∧
      -- With the keys in order, these are the members with a lesser key.
      (members.Pairwise (fun member later => member.1 < later.1) →
        before = members.filter fun member => member.1 < key)
  | _, map _, old, _, left => left = old
  | _, unorderedMap _, old, _, left => left = old

/-- The errors of the leaves that a row does not fit, in the order of the row.  A row that is not
of the kind that a list or map takes fails there. -/
def faults : {α : Type} → Shape α → Datum → List DecodeError
  | _, leaf blank read, row => (Filled.ofExcept blank (read row)).error?.toList
  | _, option _, .null | _, list _, .null | _, map _, .null | _, unorderedMap _, .null => []
  | _, option s, row => s.faults row
  | _, list s, .array items => items.flatMap s.faults
  | _, list _, row => [.mismatch row.kind "sequence"]
  | _, map s, .object members | _, unorderedMap s, .object members =>
    members.flatMap fun member => s.faults member.2
  | _, map _, row | _, unorderedMap _, row => [.mismatch row.kind "map"]

/-- The shape with ordered maps in place of unordered ones, at any depth. -/
def ordered : {α : Type} → Shape α → Shape α
  | _, leaf blank read => leaf blank read
  | _, option s => option s.ordered
  | _, list s => list s.ordered
  | _, map s => map s.ordered
  | _, unorderedMap s => map s.ordered

end Shape

/-- The shape of a target. -/
def Target.shape : (t : Target) → Shape t.Slot
  | datum => .leaf .null .ok
  | value => .leaf .null fun row => .ok row.toJson
  | bool => .leaf false Datum.toBool
  | string => .leaf "" Datum.toText
  | int kind => .leaf kind.zero (Datum.toInt kind)
  | double => .leaf double.blank Datum.toDouble
  | single => .leaf single.blank fun row => row.toDouble.map (Binary.convert .single)
  | time => .leaf time.blank Datum.toTime
  | universalTime => .leaf universalTime.blank fun row => row.toTime.map Time.toUniversal
  | option t => .option t.shape
  | list t => .list t.shape
  | map t => .map t.shape
  | unorderedMap t => .unorderedMap t.shape
  | user => .leaf user.blank fun row => row.toJson.readUser.mapError .json
  | json t => .leaf (json t).blank fun row => (t.read row.toJson).mapError .json

theorem Target.shape_eq (t : Target) : t.shape.blank = t.blank ∧ t.shape.decode = t.decode := by
  induction t with
  | option t ih | list t ih | map t ih | unorderedMap t ih =>
    refine ⟨rfl, ?_⟩
    funext old row
    rw [shape, Shape.decode, ih.1, ih.2, decode]
  | datum => exact ⟨rfl, rfl⟩
  | _ => exact ⟨rfl, rfl⟩

/-! ## 2. Errors -/

namespace Filled

variable {α β γ : Type}

theorem error?_image (f : α → γ) (outcome : Filled α) :
    (outcome.image f).error? = outcome.error? := by
  cases outcome <;> rfl

theorem error?_all (decode : β → Filled α) (items : List β) :
    (all decode items).error? = items.findSome? fun item => (decode item).error? := by
  induction items with
  | nil => rfl
  | cons item items ih =>
    rw [List.findSome?_cons]
    cases hitem : decode item with
    | failed e lost => rw [all_cons_of_failed hitem, error?, error?]
    | done value => rw [all_cons_of_done hitem, error?_image, ih, error?]

theorem error?_allMembers (decode : β → Filled α) (members : List (String × β)) :
    (allMembers decode members).error? =
      members.findSome? fun member => (decode member.2).error? := by
  simp only [allMembers_eq_all, error?_all, error?_image]

theorem error?_unorderedMap (blank : α) (decode : α → Datum → Filled α)
    (old other : List (String × α)) (row : Datum) :
    (unorderedMap blank decode old row).error? = (map blank decode other row).error? := by
  have hmap : (unorderedMap blank decode old row).error? = (map blank decode [] row).error? := by
    rw [unorderedMap]
    cases map blank decode [] row <;> rfl
  rw [hmap]
  cases row <;> rfl

section

variable {blank : α} {decode : α → Datum → Filled α} {old : Option α} {row : Datum}

theorem option_of_done (hrow : row ≠ .null) {value : α}
    (h : decode (old.getD blank) row = done value) :
    option blank decode old row = done (some value) := by
  cases row with
  | null => exact absurd rfl hrow
  | _ => simp only [option, h]

theorem option_of_failed (hrow : row ≠ .null) {e : DecodeError} {lost : α}
    (h : decode (old.getD blank) row = failed e lost) :
    option blank decode old row = failed e none := by
  cases row with
  | null => exact absurd rfl hrow
  | _ => simp only [option, h]

theorem error?_option (hrow : row ≠ .null) :
    (option blank decode old row).error? = (decode (old.getD blank) row).error? := by
  cases h : decode (old.getD blank) row with
  | done value => rw [option_of_done hrow h, error?, error?]
  | failed e lost => rw [option_of_failed hrow h, error?, error?]

end

end Filled

namespace Shape

variable {α : Type}

theorem faults_option {s : Shape α} {row : Datum} (hrow : row ≠ .null) :
    s.option.faults row = s.faults row := by
  cases row with
  | null => exact absurd rfl hrow
  | _ => simp only [faults]

theorem faults_unorderedMap (s : Shape α) (row : Datum) :
    s.unorderedMap.faults row = s.map.faults row := by
  cases row <;> simp only [faults]

theorem error?_map {s : Shape α}
    (h : ∀ old row, (s.decode old row).error? = (s.faults row).head?) (old : List (String × α))
    (row : Datum) : (s.map.decode old row).error? = (s.map.faults row).head? := by
  cases row with
  | object members =>
    rw [decode, Filled.map, Filled.error?_allMembers, faults, List.head?_flatMap]
    simp only [h]
  | _ => rfl

theorem error?_decode (s : Shape α) :
    ∀ old row, (s.decode old row).error? = (s.faults row).head? := by
  induction s with
  | leaf blank read =>
    intro old row
    rw [decode, faults]
    cases read row <;> rfl
  | option s ih =>
    intro old row
    by_cases hrow : row = .null
    · rw [hrow]
      rfl
    · rw [decode, Filled.error?_option hrow, ih, faults_option hrow]
  | list s ih =>
    intro old row
    cases row with
    | array items =>
      rw [decode, Filled.list, Filled.error?_all, faults, List.head?_flatMap]
      simp only [ih]
    | _ => rfl
  | map s ih => exact error?_map ih
  | unorderedMap s ih =>
    intro old row
    rw [decode, Filled.error?_unorderedMap _ _ old old, faults_unorderedMap]
    exact error?_map ih old row

theorem faults_ordered (s : Shape α) : s.ordered.faults = s.faults := by
  induction s with
  | leaf => rfl
  | option s ih | list s ih | map s ih | unorderedMap s ih =>
    funext row
    cases row with
    | null | array | object => simp only [ordered, faults, ih]
    | _ => simp only [ordered, faults, ih]

/-! ## 3. Leftovers -/

-- Of members with their keys in order, those before one of them are those with a lesser key.
theorem eq_filter_of_pairwise {before after : List (String × Datum)} {key : String} {item : Datum}
    (h : (before ++ (key, item) :: after).Pairwise fun member later => member.1 < later.1) :
    before = (before ++ (key, item) :: after).filter fun member => member.1 < key := by
  obtain ⟨-, hrest, hbefore⟩ := List.pairwise_append.mp h
  have hlesser : ∀ member ∈ before, member.1 < key := fun member hmember =>
    hbefore member hmember (key, item) List.mem_cons_self
  have hgreater : ∀ member ∈ (key, item) :: after, ¬ member.1 < key := by
    rw [List.forall_mem_cons]
    exact ⟨String.lt_irrefl key, fun member hmember =>
      String.lt_asymm ((List.pairwise_cons.mp hrest).1 member hmember)⟩
  rw [List.filter_append, List.filter_eq_self.mpr (by simpa using hlesser),
    List.filter_eq_nil_iff.mpr (by simpa using hgreater), List.append_nil]

theorem leaves_of_failed (s : Shape α) {old left : α} {row : Datum} {e : DecodeError}
    (h : s.decode old row = .failed e left) : s.Leaves old row left := by
  cases s with
  | leaf blank read =>
    rw [decode] at h
    cases hread : read row with
    | ok value => rw [hread] at h; cases h
    | error e' =>
      rw [hread] at h
      cases h
      rfl
  | option s =>
    by_cases hrow : row = .null
    · rw [hrow] at h
      cases h
    · cases hcontent : s.decode (old.getD s.blank) row with
      | done value =>
        rw [decode, Filled.option_of_done hrow hcontent] at h
        cases h
      | failed e' lost =>
        rw [decode, Filled.option_of_failed hrow hcontent] at h
        cases h
        rfl
  | list s =>
    cases row with
    | array items =>
      obtain ⟨before, item, after, lost, hsplit, hbefore, hitem⟩ := Filled.all_eq_failed_iff.mp h
      exact ⟨before, item, after, hsplit, hbefore, e, lost, hitem⟩
    | null => cases h
    | _ =>
      cases h
      rfl
  | map s =>
    cases row with
    | object members =>
      obtain ⟨before, key, item, after, lost, rfl, hbefore, hitem⟩ :=
        Filled.allMembers_eq_failed_iff.mp h
      exact ⟨before, key, item, after, rfl, hbefore, ⟨e, lost, hitem⟩, eq_filter_of_pairwise⟩
    | null => cases h
    | _ =>
      cases h
      rfl
  | unorderedMap s =>
    rw [decode, Filled.unorderedMap] at h
    cases hmap : Filled.map s.blank s.decode [] row with
    | done members => rw [hmap] at h; cases h
    | failed e' lost =>
      rw [hmap] at h
      cases h
      rfl

end Shape

/-! ## 4. The theorem -/

/-- The targets have shapes.  Of any shape, nested to any depth and with any leaves, a destination
refuses a row exactly if a leaf does, with the error of the first leaf that does; what is left in it
is what its outermost shape says; and with ordered maps in place of unordered ones it fails on the
same rows with the same errors. -/
theorem failed_row_leaves :
    (∀ t : Target, t.shape.blank = t.blank ∧ t.shape.decode = t.decode) ∧
    ∀ {α : Type} (s : Shape α) (old : α) (row : Datum),
      (s.decode old row).error? = (s.faults row).head? ∧
      (∀ e left, s.decode old row = .failed e left → s.Leaves old row left) ∧
      ∀ other, (s.ordered.decode other row).error? = (s.decode old row).error? := by
  refine ⟨Target.shape_eq, fun s old row => ⟨s.error?_decode old row, fun e left h =>
    s.leaves_of_failed h, fun other => ?_⟩⟩
  rw [s.ordered.error?_decode, s.error?_decode, s.faults_ordered]

/-- A map of lists is left with the one entry before the list that fails; an unordered map keeps
what it held, and an option of it is left empty. -/
theorem failed_row_leaves_nested :
    let row := Datum.object [("a", .array [.number (.natural 1)]),
      ("b", .array [.number (.natural 2), .bool true]), ("c", .null)]
    let one : IntKind.u8.Value := ⟨1, by decide⟩
    let t : Target := .list (.int .u8)
    (Target.map t).decode [("z", [one])] row =
        .failed (.mismatch .bool "u8") [("a", [one])] ∧
      (Target.map t).shape.Leaves [("z", [one])] row [("a", [one])] ∧
      (Target.unorderedMap t).shape.decode [("z", [one])] row =
        .failed (.mismatch .bool "u8") [("z", [one])] ∧
      (Target.option (.unorderedMap t)).shape.Leaves (some [("z", [one])]) row none := by
  intro row one t
  have hmap : (Target.map t).shape.decode [("z", [one])] row =
      .failed (.mismatch .bool "u8") [("a", [one])] := by rfl
  have hoption : (Target.option (.unorderedMap t)).shape.decode (some [("z", [one])]) row =
      .failed (.mismatch .bool "u8") none := by rfl
  exact ⟨by rfl, (failed_row_leaves.2 _ _ row).2.1 _ _ hmap, by rfl,
    (failed_row_leaves.2 _ _ row).2.1 _ _ hoption⟩

end RowStream
