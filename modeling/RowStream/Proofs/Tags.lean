import RowStream.Proofs.Normalizing

/-!
# Tags and options

The options matter to normalization only by the presentations of the types that some object of the
value names.  Main statement: two options that agree on those types give the same outcome, and if
none of them is presented natively, normalization takes the JSON value as it stands, from which it
can be had back.
-/

namespace RowStream.Pseudotype

variable {options other : Options} {members : List (String × Json)}

/-! ## 1. Types that occur in a value -/

/-- Some object in a value names a type. -/
def Occurs (tag : Tag) (v : Json) : Prop :=
  ∃ members, Json.Part (.object members) v ∧ Members.get? tagKey members = some (.string tag.name)

theorem Occurs.mono {tag : Tag} {part v : Json} (h : Occurs tag part) (hpart : Json.Part part v) :
    Occurs tag v := by
  obtain ⟨members, hmembers, hget⟩ := h
  exact ⟨members, hmembers.trans hpart, hget⟩

theorem not_occurs_null (tag : Tag) : ¬ Occurs tag .null := by
  rintro ⟨members, hpart, -⟩
  cases hpart

theorem not_occurs_string (tag : Tag) (s : String) : ¬ Occurs tag (.string s) := by
  rintro ⟨members, hpart, -⟩
  cases hpart

theorem occurs_array_iff {tag : Tag} {items : List Json} :
    Occurs tag (.array items) ↔ ∃ item ∈ items, Occurs tag item := by
  constructor
  · rintro ⟨members, hpart, hget⟩
    cases hpart with
    | item hmem hpart => exact ⟨_, hmem, members, hpart, hget⟩
  · rintro ⟨item, hmem, h⟩
    exact h.mono (.item hmem .self)

theorem occurs_object_iff {tag : Tag} : Occurs tag (.object members) ↔
    Members.get? tagKey members = some (.string tag.name) ∨
      ∃ member ∈ members, Occurs tag member.2 := by
  constructor
  · rintro ⟨members', hpart, hget⟩
    cases hpart with
    | self => exact .inl hget
    | member hmem hpart => exact .inr ⟨_, hmem, members', hpart, hget⟩
  · rintro (hget | ⟨member, hmem, h⟩)
    · exact ⟨members, .self, hget⟩
    · exact h.mono (.member hmem .self)

theorem Tag.name_of_ofName? {name : String} {tag : Tag} (h : Tag.ofName? name = some tag) :
    name = tag.name := by
  unfold Tag.ofName? at h
  split_ifs at h <;> cases h <;> assumption

-- The type that the members of an object name occurs in the object.
theorem occurs_of_tag? {tag : Tag} (h : tag? members = some tag) :
    Occurs tag (.object members) := by
  obtain ⟨value, hvalue, h⟩ := Option.bind_eq_some_iff.mp h
  obtain ⟨name, hname, h⟩ := Option.bind_eq_some_iff.mp h
  cases value with
  | string s =>
    cases hname
    rw [Tag.name_of_ofName? h] at hvalue
    exact ⟨members, .self, hvalue⟩
  | _ => cases hname

theorem occurs_of_nativeTag? {tag : Tag} (h : nativeTag? options members = some tag) :
    Occurs tag (.object members) ∧ tag.presentation options = .native := by
  rw [nativeTag?, Option.filter_eq_some_iff] at h
  exact ⟨occurs_of_tag? h.1, by simpa using h.2⟩

/-! ## 2. Options that agree -/

/-- Two options present the types that occur in a value alike. -/
def Agree (options other : Options) (v : Json) : Prop :=
  ∀ tag, Occurs tag v → tag.presentation options = tag.presentation other

theorem Agree.mono {part v : Json} (h : Agree options other v) (hpart : Json.Part part v) :
    Agree options other part := fun tag htag => h tag (htag.mono hpart)

theorem Agree.nativeTag?_eq (h : Agree options other (.object members)) :
    nativeTag? other members = nativeTag? options members := by
  unfold nativeTag?
  cases htag : tag? members with
  | none => rfl
  | some tag => rw [Option.filter_some, Option.filter_some, h tag (occurs_of_tag? htag)]

-- The group and the reduction of a listed entry are parts of the object that lists it.
theorem part_of_listed {group reduction : Json}
    (h : Json.array [group, reduction] ∈ (listed? members).getD []) :
    Json.Part group (.object members) ∧ Json.Part reduction (.object members) := by
  cases hlist : listed? members with
  | none => rw [hlist] at h; cases h
  | some items =>
    rw [hlist] at h
    have hdata := Members.mem_of_get? (listed?_eq_some_iff.mp hlist)
    have hentry : Json.Part (.array [group, reduction]) (.object members) :=
      .member hdata (.item h .self)
    exact ⟨.trans (.item (by simp) .self) hentry, .trans (.item (by simp) .self) hentry⟩

theorem entryOf_congr {item : Json} (h : ∀ group reduction, item = .array [group, reduction] →
    normalize options group = normalize other group ∧
      normalize options reduction = normalize other reduction) :
    entryOf options item = entryOf other item := by
  by_cases hpair : ∃ group reduction, item = .array [group, reduction]
  · obtain ⟨group, reduction, rfl⟩ := hpair
    obtain ⟨hgroup, hreduction⟩ := h group reduction rfl
    rw [entryOf, entryOf, hgroup, hreduction]
  · have hno : ∀ group reduction, item ≠ .array [group, reduction] :=
      fun group reduction heq => hpair ⟨group, reduction, heq⟩
    rw [entryOf_of_not_pair hno, entryOf_of_not_pair hno]

theorem normalize_congr (options other : Options) (v : Json) :
    Agree options other v → normalize options v = normalize other v := by
  induction v using walk_induction options with
  | null | bool | number | string => exact fun _ => rfl
  | array items ih =>
    intro h
    rw [normalize, normalize, normalizeItems_eq, normalizeItems_eq,
      mapM_congr fun item hitem => ih item hitem (h.mono (.item hitem .self))]
  | time members htag | binary members htag =>
    intro h
    simp only [normalize, h.nativeTag?_eq, htag]
  | group members htag ih =>
    intro h
    simp only [normalize, h.nativeTag?_eq, htag, groups_eq]
    cases hlist : listed? members with
    | none => rfl
    | some items =>
      simp only [entries_eq]
      rw [mapM_congr fun item hitem => entryOf_congr ?_]
      rintro group reduction rfl
      have hitem : Json.array [group, reduction] ∈ (listed? members).getD [] := by rwa [hlist]
      obtain ⟨hgroup, hreduction⟩ := part_of_listed hitem
      obtain ⟨ihgroup, ihreduction⟩ := ih group reduction hitem
      exact ⟨ihgroup (h.mono hgroup), ihreduction (h.mono hreduction)⟩
  | object members htag ih =>
    intro h
    simp only [normalize, h.nativeTag?_eq, htag, normalizeMembers_eq]
    rw [mapM_congr fun member hmember => ?_]
    rw [ih member hmember (h.mono (.member hmember .self))]

/-! ## 3. Nothing native -/

theorem ofJsonItems_eq (items : List Json) : Datum.ofJsonItems items = items.map Datum.ofJson := by
  induction items with
  | nil => rfl
  | cons item items ih => rw [Datum.ofJsonItems, ih, List.map_cons]

theorem ofJsonMembers_eq (members : List (String × Json)) :
    Datum.ofJsonMembers members = members.map fun member => (member.1, Datum.ofJson member.2) := by
  induction members with
  | nil => rfl
  | cons member members ih => rw [Datum.ofJsonMembers, ih, List.map_cons]

theorem normalize_of_raw (options : Options) (v : Json) :
    (∀ tag, Occurs tag v → tag.presentation options ≠ .native) →
      normalize options v = .ok (Datum.ofJson v) := by
  induction v using Json.induction with
  | null | bool | number | string => exact fun _ => rfl
  | array items ih =>
    intro h
    have hitems : items.mapM (normalize options) = .ok (items.map Datum.ofJson) :=
      mapM_eq_ok_map fun item hitem =>
        ih item hitem fun tag htag => h tag (htag.mono (.item hitem .self))
    rw [normalize, normalizeItems_eq, hitems, Datum.ofJson, ofJsonItems_eq]
    rfl
  | object members ih =>
    intro h
    have htag : nativeTag? options members = none := by
      by_contra hsome
      obtain ⟨tag, htag⟩ := Option.ne_none_iff_exists'.mp hsome
      obtain ⟨hoccurs, hnative⟩ := occurs_of_nativeTag? htag
      exact h tag hoccurs hnative
    have hmembers : (members.mapM fun member =>
        normalize options member.2 >>= fun datum => pure (member.1, datum)) =
        .ok (members.map fun member => (member.1, Datum.ofJson member.2)) :=
      mapM_eq_ok_map fun member hmember => by
        rw [ih member hmember fun tag htag => h tag (htag.mono (.member hmember .self))]
        rfl
    simp only [normalize, htag]
    rw [normalizeMembers_eq, hmembers, Datum.ofJson, ofJsonMembers_eq]
    rfl

/-- Options that present the types that occur in a value alike normalize it alike, to the same row
value or with the same error.  If none of those types is presented natively, the value is taken as
it stands, and is had back from that. -/
theorem normalize_only_named (v : Json) :
    (∀ options other, Agree options other v → normalize options v = normalize other v) ∧
    ∀ options, (∀ tag, Occurs tag v → tag.presentation options ≠ .native) →
      normalize options v = .ok (Datum.ofJson v) ∧ (Datum.ofJson v).toJson = v :=
  ⟨fun options other => normalize_congr options other v,
    fun options h => ⟨normalize_of_raw options v h, Datum.toJson_ofJson v⟩⟩

/-- A time inside a byte string: how groups are presented and whether batches are fetched ahead does
not matter to it, and with raw times and byte strings it is kept as it stands. -/
theorem normalize_only_named_nested :
    let v := Json.object [("$reql_type$", .string "BINARY"),
      ("within", .array [.null, .object [("$reql_type$", .string "TIME")]])]
    let raw : Options := { time := .raw, binary := .raw }
    let other : Options := { time := .raw, binary := .raw, group := .raw, prefetch := false }
    ¬ Occurs .group v ∧ normalize raw v = normalize other v ∧
      normalize raw v = .ok (Datum.ofJson v) ∧ (Datum.ofJson v).toJson = v := by
  intro v raw other
  have hgroup : ¬ Occurs .group v := by
    simp [v, occurs_object_iff, occurs_array_iff, not_occurs_null, not_occurs_string,
      Members.get?, tagKey, Tag.name]
  have hagree : Agree raw other v := by
    intro tag htag
    cases tag with
    | time | binary => rfl
    | group => exact absurd htag hgroup
  have hraw : ∀ tag, Occurs tag v → tag.presentation raw ≠ .native := by
    intro tag htag
    cases tag with
    | time | binary => decide
    | group => exact absurd htag hgroup
  exact ⟨hgroup, (normalize_only_named v).1 raw other hagree, (normalize_only_named v).2 raw hraw⟩

end RowStream.Pseudotype
