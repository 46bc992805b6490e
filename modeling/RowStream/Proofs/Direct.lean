import RowStream.Proofs.Filling
import RowStream.Proofs.Integers
import RowStream.Proofs.Replies
import RowStream.Proofs.Tags

/-!
# Decoding with and without the JSON form

A direct target is one that rows are decoded into by its own rules.  A row that fits the target by
way of its JSON form fits it directly, with the same value.  The JSON form differs in one thing: in
an object of a single member under a reserved key it reads the text under that key.  No row has such
an object, since texts of rows were read in the same way.
-/

namespace RowStream

/-! ## 1. Embedded texts -/

namespace Json

/-- An object that stands for an embedded text stands somewhere in a value. -/
def Embeds (v : Json) : Prop := ∃ text, Part (.object [(embeddedKey, text)]) v

theorem not_embeds_null : ¬ Embeds .null := by
  rintro ⟨text, hpart⟩
  cases hpart

theorem not_embeds_bool (b : Bool) : ¬ Embeds (.bool b) := by
  rintro ⟨text, hpart⟩
  cases hpart

theorem not_embeds_number (n : Number) : ¬ Embeds (.number n) := by
  rintro ⟨text, hpart⟩
  cases hpart

theorem not_embeds_string (s : String) : ¬ Embeds (.string s) := by
  rintro ⟨text, hpart⟩
  cases hpart

theorem embeds_array_iff {items : List Json} :
    Embeds (.array items) ↔ ∃ item ∈ items, item.Embeds := by
  constructor
  · rintro ⟨text, hpart⟩
    cases hpart with
    | item hmem hpart => exact ⟨_, hmem, text, hpart⟩
  · rintro ⟨item, hmem, text, hpart⟩
    exact ⟨text, .item hmem hpart⟩

theorem embeds_object_iff {members : List (String × Json)} : Embeds (.object members) ↔
    (∃ text, members = [(embeddedKey, text)]) ∨ ∃ member ∈ members, member.2.Embeds := by
  constructor
  · rintro ⟨text, hpart⟩
    cases hpart with
    | self => exact .inl ⟨text, rfl⟩
    | member hmem hpart => exact .inr ⟨_, hmem, text, hpart⟩
  · rintro (⟨text, rfl⟩ | ⟨member, hmem, text, hpart⟩)
    · exact ⟨text, .self⟩
    · exact ⟨text, .member hmem hpart⟩

theorem readValues_eq (items : List Json) : readValues items = items.mapM readValue := by
  induction items with
  | nil => rfl
  | cons item items ih => rw [readValues, ih, List.mapM_cons]

theorem readMembers_eq (members : List (String × Json)) : readMembers members =
    members.mapM fun member => do return (member.1, ← readValue member.2) := by
  induction members with
  | nil => rfl
  | cons member members ih =>
    rw [readMembers, ih, List.mapM_cons]
    cases readValue member.2 <;> rfl

theorem readValue_object {key : String} {v : Json} {members : List (String × Json)}
    (hkey : key ≠ embeddedKey) : readValue (.object ((key, v) :: members)) =
      do return .object (← readMembers ((key, v) :: members)) := by
  rw [readValue, if_neg hkey, readMembers]
  cases readValue v with
  | error fault => rfl
  | ok value => cases readMembers members <;> rfl

theorem eq_nil_of_readValue {v w : Json} {members : List (String × Json)}
    (h : readValue (.object ((embeddedKey, v) :: members)) = .ok w) : members = [] := by
  rw [readValue, if_pos rfl] at h
  obtain ⟨text, -, h⟩ := bind_eq_ok_iff.mp h
  obtain ⟨value, -, h⟩ := bind_eq_ok_iff.mp h
  cases members with
  | nil => rfl
  | cons member members => cases h

/-- A value without embedded texts is read as it stands. -/
theorem readValue_eq_self (v : Json) : ∀ w, v.readValue = .ok w → ¬ v.Embeds → w = v := by
  induction v using Json.induction with
  | null | bool | number | string =>
    intro w h _
    cases h
    rfl
  | array items ih =>
    intro w h hno
    rw [embeds_array_iff] at hno
    rw [readValue, readValues_eq] at h
    obtain ⟨values, hvalues, h⟩ := bind_eq_ok_iff.mp h
    cases h
    have hsame : List.Forall₂ Eq items values := forall₂_of_mapM hvalues fun item hitem value h =>
      (ih item hitem value h fun hembeds => hno ⟨item, hitem, hembeds⟩).symm
    rw [List.forall₂_eq_eq_eq] at hsame
    rw [hsame]
  | object members ih =>
    intro w h hno
    rw [embeds_object_iff, not_or] at hno
    cases members with
    | nil =>
      cases h
      rfl
    | cons member members =>
      obtain ⟨key, v⟩ := member
      by_cases hkey : key = embeddedKey
      · subst hkey
        rw [eq_nil_of_readValue h] at hno
        exact absurd ⟨v, rfl⟩ hno.1
      · rw [readValue_object hkey, readMembers_eq] at h
        obtain ⟨values, hvalues, h⟩ := bind_eq_ok_iff.mp h
        cases h
        have hsame : List.Forall₂ Eq ((key, v) :: members) values := by
          refine forall₂_of_mapM hvalues fun member hmember value h => ?_
          obtain ⟨x, hx, h⟩ := bind_eq_ok_iff.mp h
          cases h
          rw [ih member hmember x hx fun hembeds => hno.2 ⟨member, hmember, hembeds⟩]
        rw [List.forall₂_eq_eq_eq] at hsame
        rw [hsame]

end Json

/-! ## 2. Rows embed no texts -/

namespace Members

variable {α : Type} {key : String} {value : α} {members : List (String × α)} {member : String × α}

theorem mem_of_mem_insert (h : member ∈ insert key value members) :
    member = (key, value) ∨ member ∈ members := by
  induction members with
  | nil => exact .inl (List.mem_singleton.mp h)
  | cons first members ih =>
    rw [insert] at h
    split at h
    · exact List.mem_cons.mp h
    · split at h
      · exact (List.mem_cons.mp h).imp_right (List.mem_cons_of_mem first)
      · rcases List.mem_cons.mp h with rfl | h
        · exact .inr List.mem_cons_self
        · exact (ih h).imp_right (List.mem_cons_of_mem first)

theorem mem_of_mem_ofList (h : member ∈ ofList members) : member ∈ members := by
  suffices hfold : ∀ sorted : List (String × α),
      member ∈ members.foldl (fun sorted member => insert member.1 member.2 sorted) sorted →
        member ∈ members ∨ member ∈ sorted from
    (hfold [] h).resolve_right List.not_mem_nil
  clear h
  induction members with
  | nil => exact fun sorted h => .inr h
  | cons first members ih =>
    intro sorted h
    rcases ih _ h with h | h
    · exact .inl (List.mem_cons_of_mem first h)
    · rcases mem_of_mem_insert h with rfl | h
      · exact .inl List.mem_cons_self
      · exact .inr h

-- The key of a member is not lost, whatever other members there are.
theorem key_of_ofList_eq {other : String} {x : α}
    (h : ofList ((key, value) :: members) = [(other, x)]) : other = key := by
  have hget : get? key (ofList ((key, value) :: members)) = _ := get?_ofList _
  rw [h, List.reverse_cons, get?_append, get?_cons, get?_cons] at hget
  by_contra hne
  rw [if_neg hne, if_pos rfl] at hget
  cases hlater : get? key members.reverse <;> rw [hlater] at hget <;> cases hget

end Members

namespace Json

section

variable {embedded : String → Except Fault Json}

mutual

theorem not_embeds_of_ofOutline (hsub : ∀ s v, embedded s = .ok v → ¬ v.Embeds) :
    ∀ (outline : Outline) {depth : Nat} {v : Json},
      ofOutline embedded outline depth = .ok v → ¬ v.Embeds
  | .broken, _, _, h => by cases h
  | .null, _, _, h => by
    cases h
    exact not_embeds_null
  | .bool b, _, _, h => by
    cases h
    exact not_embeds_bool b
  | .number spelling, _, _, h => by
    obtain ⟨n, -, h⟩ := bind_eq_ok_iff.mp h
    cases h
    exact not_embeds_number n
  | .string body, _, _, h => by
    obtain ⟨s, -, h⟩ := bind_eq_ok_iff.mp h
    cases h
    exact not_embeds_string s
  | .array _, 0, _, h | .object _, 0, _, h => by cases h
  | .array items, depth + 1, _, h => by
    obtain ⟨values, hvalues, h⟩ := bind_eq_ok_iff.mp h
    cases h
    rw [embeds_array_iff]
    rintro ⟨value, hmem, hvalue⟩
    exact not_embeds_of_ofItems hsub items hvalues value hmem hvalue
  | .object .broken, _ + 1, _, h => by cases h
  | .object .close, _ + 1, _, h => by
    cases h
    rw [embeds_object_iff]
    rintro (⟨text, h⟩ | ⟨member, hmem, -⟩)
    · cases h
    · cases hmem
  | .object (.member key value rest), depth + 1, v, h => by
    obtain ⟨body, s, -, -, -, hv, -⟩ | ⟨name, first, members, -, hname, hfirst, hmembers, rfl⟩ :=
      ofObject_eq_ok h
    · exact hsub s v hv
    · rw [embeds_object_iff]
      rintro (⟨text, h⟩ | ⟨member, hmem, hmember⟩)
      · exact hname (Members.key_of_ofList_eq h).symm
      · rcases List.mem_cons.mp (Members.mem_of_mem_ofList hmem) with rfl | hmem
        · exact not_embeds_of_ofOutline hsub value hfirst hmember
        · exact not_embeds_of_ofMembers hsub rest hmembers member hmem hmember

theorem not_embeds_of_ofItems (hsub : ∀ s v, embedded s = .ok v → ¬ v.Embeds) :
    ∀ (items : Outline.Items) {depth : Nat} {values : List Json},
      ofItems embedded items depth = .ok values → ∀ value ∈ values, ¬ value.Embeds
  | .broken, _, _, h => by cases h
  | .close, _, _, h => by
    cases h
    exact List.forall_mem_nil _
  | .item _ value rest, _, _, h => by
    obtain ⟨first, hfirst, h⟩ := bind_eq_ok_iff.mp h
    obtain ⟨others, hothers, h⟩ := bind_eq_ok_iff.mp h
    cases h
    rw [List.forall_mem_cons]
    exact ⟨not_embeds_of_ofOutline hsub value hfirst, not_embeds_of_ofItems hsub rest hothers⟩

theorem not_embeds_of_ofMembers (hsub : ∀ s v, embedded s = .ok v → ¬ v.Embeds) :
    ∀ (members : Outline.Members) {depth : Nat} {values : List (String × Json)},
      ofMembers embedded members depth = .ok values → ∀ member ∈ values, ¬ member.2.Embeds
  | .broken, _, _, h => by cases h
  | .close, _, _, h => by
    cases h
    exact List.forall_mem_nil _
  | .member key value rest, _, _, h => by
    obtain ⟨name, -, h⟩ := bind_eq_ok_iff.mp h
    obtain ⟨first, hfirst, h⟩ := bind_eq_ok_iff.mp h
    obtain ⟨others, hothers, h⟩ := bind_eq_ok_iff.mp h
    cases h
    rw [List.forall_mem_cons]
    exact ⟨not_embeds_of_ofOutline hsub value hfirst, not_embeds_of_ofMembers hsub rest hothers⟩

end

end

theorem not_embeds_of_parseWithin {m : Nat} {text : String} {v : Json}
    (h : parseWithin m text = .ok v) : ¬ v.Embeds := by
  induction m generalizing text v with
  | zero => cases h
  | succ m ih =>
    exact not_embeds_of_ofOutline (fun s v => ih) _ (readText_eq_ok_iff.mp h).1

/-- The value of a text embeds no texts: they have been read. -/
theorem not_embeds_of_parse {text : String} {v : Json} (h : parse text = .ok v) : ¬ v.Embeds :=
  not_embeds_of_parseWithin h

theorem Embeds.mono {part v : Json} (h : part.Embeds) (hpart : Part part v) : v.Embeds := by
  obtain ⟨text, htext⟩ := h
  exact ⟨text, htext.trans hpart⟩

end Json

namespace Datum

theorem not_embeds_array {data : List Datum} (h : ∀ datum ∈ data, ¬ datum.toJson.Embeds) :
    ¬ (array data).toJson.Embeds := by
  rw [toJson, toJsonItems_eq, Json.embeds_array_iff]
  rintro ⟨item, hitem, hembeds⟩
  obtain ⟨datum, hdatum, rfl⟩ := List.mem_map.mp hitem
  exact h datum hdatum hembeds

theorem not_embeds_object {data : List (String × Datum)}
    (hself : ∀ d, data ≠ [(Json.embeddedKey, d)])
    (h : ∀ member ∈ data, ¬ member.2.toJson.Embeds) : ¬ (object data).toJson.Embeds := by
  rw [toJson, toJsonMembers_eq, Json.embeds_object_iff]
  rintro (⟨text, hdata⟩ | ⟨other, hother, hembeds⟩)
  · obtain ⟨⟨key, d⟩, rfl, hmember⟩ := List.map_eq_singleton_iff.mp hdata
    cases hmember
    exact hself d rfl
  · obtain ⟨member, hmember, rfl⟩ := List.mem_map.mp hother
    exact h member hmember hembeds

end Datum

theorem Pseudotype.not_embeds_normalize (options : Options) (v : Json) :
    ∀ d, normalize options v = .ok d → ¬ v.Embeds → ¬ d.toJson.Embeds := by
  induction v using walk_induction options with
  | null | bool | number | string =>
    intro d h hno
    cases h
    exact hno
  | array items ih =>
    intro d h hno
    rw [normalize, normalizeItems_eq] at h
    obtain ⟨data, hdata, h⟩ := bind_eq_ok_iff.mp h
    cases h
    rw [Json.embeds_array_iff] at hno
    exact Datum.not_embeds_array (forall_mem_of_forall₂ (mapM_eq_ok_iff.mp hdata)
      fun item hitem datum h => ih item hitem datum h fun hembeds => hno ⟨item, hitem, hembeds⟩)
  | time members htag =>
    intro d h _
    simp only [normalize, htag] at h
    obtain ⟨t, rfl, -⟩ := time_eq_ok h
    exact Json.not_embeds_string _
  | binary members htag =>
    intro d h _
    simp only [normalize, htag] at h
    obtain ⟨bytes, rfl, -⟩ := binary_eq_ok h
    exact Json.not_embeds_string _
  | group members htag ih =>
    intro d h hno
    simp only [normalize, htag] at h
    obtain ⟨items, data, hlist, rfl, hentries⟩ := groups_eq_ok h
    refine Datum.not_embeds_array (forall_mem_of_forall₂ (mapM_eq_ok_iff.mp hentries) ?_)
    intro item hitem datum hdatum
    obtain ⟨group, reduction, g, r, rfl, rfl, hg, hr⟩ := entryOf_eq_ok hdatum
    have hlisted : Json.array [group, reduction] ∈ (listed? members).getD [] := by rwa [hlist]
    obtain ⟨hgroup, hreduction⟩ := part_of_listed hlisted
    obtain ⟨ihgroup, ihreduction⟩ := ih group reduction hlisted
    refine Datum.not_embeds_object (fun d hentry => by simp at hentry) ?_
    rw [List.forall_mem_cons, List.forall_mem_singleton]
    exact ⟨ihgroup g hg fun h => hno (h.mono hgroup),
      ihreduction r hr fun h => hno (h.mono hreduction)⟩
  | object members htag ih =>
    intro d h hno
    simp only [normalize, htag, normalizeMembers_eq] at h
    obtain ⟨data, hdata, h⟩ := bind_eq_ok_iff.mp h
    cases h
    have hmembers : List.Forall₂ (fun member datum => datum.1 = member.1 ∧
        normalize options member.2 = .ok datum.2) members data := by
      refine (mapM_eq_ok_iff.mp hdata).imp fun member datum h => ?_
      obtain ⟨value, hvalue, h⟩ := bind_eq_ok_iff.mp h
      cases h
      exact ⟨rfl, hvalue⟩
    rw [Json.embeds_object_iff, not_or] at hno
    refine Datum.not_embeds_object ?_ (forall_mem_of_forall₂ hmembers fun member hmember datum h =>
      ih member hmember _ h.2 fun hembeds => hno.2 ⟨member, hmember, hembeds⟩)
    rintro d rfl
    obtain ⟨⟨key, first⟩, rest, hfirst, hrest, rfl⟩ := List.forall₂_cons_right_iff.mp hmembers
    rw [List.forall₂_nil_right_iff] at hrest
    subst hrest
    obtain ⟨rfl, -⟩ := hfirst
    exact hno.1 ⟨first, rfl⟩

/-- A row value that comes from a text: the value of the text, as it stands or normalized. -/
def Datum.IsRow (d : Datum) : Prop :=
  ∃ text v, Json.parse text = .ok v ∧
    (d = .ofJson v ∨ ∃ options, Pseudotype.normalize options v = .ok d)

theorem Datum.IsRow.not_embeds {d : Datum} (h : d.IsRow) : ¬ d.toJson.Embeds := by
  obtain ⟨text, v, hparse, rfl | ⟨options, hd⟩⟩ := h
  · rw [toJson_ofJson]
    exact Json.not_embeds_of_parse hparse
  · exact Pseudotype.not_embeds_normalize options v d hd (Json.not_embeds_of_parse hparse)

/-! ## 3. Rows without times and byte strings -/

/-- No time and no byte string stands in a row value. -/
def Datum.Plain (d : Datum) : Prop :=
  (∀ t, ¬ Part (.time t) d) ∧ ∀ bytes, ¬ Part (.binary bytes) d

namespace Datum

theorem plain_array_iff {items : List Datum} :
    (array items).Plain ↔ ∀ item ∈ items, item.Plain := by
  constructor
  · intro h item hmem
    exact ⟨fun t hpart => h.1 t (.item hmem hpart), fun bytes hpart => h.2 bytes (.item hmem hpart)⟩
  · intro h
    constructor
    · rintro t (_ | ⟨hmem, hpart⟩)
      exact (h _ hmem).1 t hpart
    · rintro bytes (_ | ⟨hmem, hpart⟩)
      exact (h _ hmem).2 bytes hpart

theorem plain_object_iff {members : List (String × Datum)} :
    (object members).Plain ↔ ∀ member ∈ members, member.2.Plain := by
  constructor
  · intro h member hmem
    exact ⟨fun t hpart => h.1 t (.member hmem hpart),
      fun bytes hpart => h.2 bytes (.member hmem hpart)⟩
  · intro h
    constructor
    · rintro t (_ | _ | ⟨hmem, hpart⟩)
      exact (h _ hmem).1 t hpart
    · rintro bytes (_ | _ | ⟨hmem, hpart⟩)
      exact (h _ hmem).2 bytes hpart

theorem Plain.eq_string {d : Datum} {s : String} (h : d.Plain) (hs : d.toJson = .string s) :
    d = .string s := by
  cases d with
  | string => cases hs; rfl
  | time t => exact absurd .self (h.1 t)
  | binary bytes => exact absurd .self (h.2 bytes)
  | _ => cases hs

end Datum

/-! ## 4. Direct targets -/

namespace Target

variable {t : Target} {d : Datum}

/-- The targets built from truth values, texts, integers and JSON values by options, lists and
maps. -/
inductive IsDirect : Target → Prop
  | value : IsDirect value
  | bool : IsDirect bool
  | string : IsDirect string
  | int (kind : IntKind) : IsDirect (int kind)
  | option {t : Target} (h : IsDirect t) : IsDirect (option t)
  | list {t : Target} (h : IsDirect t) : IsDirect (list t)
  | map {t : Target} (h : IsDirect t) : IsDirect (map t)
  | unorderedMap {t : Target} (h : IsDirect t) : IsDirect (unorderedMap t)

theorem value?_eq_some_iff {y : t.Slot} : t.value? d = some y ↔ t.decode t.blank d = .done y :=
  ⟨decode_eq_done t.blank, value?_of_decode⟩

theorem value?_option (hd : d ≠ .null) : (option t).value? d = (t.value? d).map some := by
  unfold value?
  rw [decode, Filled.result_option hd, blank, Option.getD_none]
  cases (t.decode t.blank d).result <;> rfl

theorem value?_list_eq_some_iff {items : List Datum} {ys : List t.Slot} :
    (list t).value? (.array items) = some ys ↔
      List.Forall₂ (fun item y => t.value? item = some y) items ys := by
  rw [value?_eq_some_iff, decode, Filled.list, Filled.all_eq_done_iff]
  simp only [value?_eq_some_iff]

theorem value?_map_eq_some_iff {members : List (String × Datum)} {ys : List (String × t.Slot)} :
    (map t).value? (.object members) = some ys ↔
      List.Forall₂ (fun member y => y.1 = member.1 ∧ t.value? member.2 = some y.2) members ys := by
  rw [value?_eq_some_iff, decode, Filled.map, Filled.allMembers_eq_done_iff]
  simp only [value?_eq_some_iff]

theorem value?_unorderedMap : (unorderedMap t).value? d = (map t).value? d := by
  unfold value?
  rw [decode, decode, Filled.unorderedMap, blank]
  cases Filled.map t.blank t.decode [] d <;> rfl

end Target

/-! ## 5. Direct decoding -/

theorem Json.wide?_of_readInt {kind : IntKind} {n : Number} {i : kind.Value}
    (h : (number n).readInt kind = .ok i) : n.wide?.bind kind.value? = some i := by
  cases n with
  | binary x => cases h
  | natural | negative =>
    rw [readInt, Number.integer?, Option.getD_some] at h
    · split at h
      next hi =>
        cases h
        exact hi
      next => cases h
    · exact fun x hx => by cases hx

-- What is found for each of a list, and is the same in some cases, is found for the whole list.
theorem exists_forall₂ {α β : Type} {R S : α → β → Prop} {P : α → Prop} {xs : List α}
    {zs : List β} (h : List.Forall₂ R xs zs)
    (hstep : ∀ x ∈ xs, ∀ z, R x z → ∃ y, S x y ∧ (P x → y = z)) :
    ∃ ys, List.Forall₂ S xs ys ∧ ((∀ x ∈ xs, P x) → ys = zs) := by
  induction h with
  | nil => exact ⟨[], .nil, fun _ => rfl⟩
  | cons hfirst _ ih =>
    rw [List.forall_mem_cons] at hstep
    obtain ⟨y, hy, hsame⟩ := hstep.1 _ hfirst
    obtain ⟨ys, hys, hsames⟩ := ih hstep.2
    refine ⟨y :: ys, .cons hy hys, fun hP => ?_⟩
    rw [List.forall_mem_cons] at hP
    rw [hsame hP.1, hsames hP.2]

namespace Target

variable {t : Target}

theorem exists_value_of_readMap {members : List (String × Datum)}
    (hd : (Datum.object members).Plain) {x : List (String × t.Slot)}
    (h : Json.readMap t.read (Datum.object members).toJson = .ok x)
    (ih : ∀ {d x}, d.Plain → t.read d.toJson = .ok x →
      ∃ y, t.value? d = some y ∧ (¬ d.toJson.Embeds → y = x)) :
    ∃ y, (map t).value? (.object members) = some y ∧
      (¬ (Datum.object members).toJson.Embeds → y = x) := by
  rw [Json.readMap_toJson_eq_ok_iff] at h
  obtain ⟨ys, hys, hsame⟩ := exists_forall₂
    (S := fun member y => y.1 = member.1 ∧ t.value? member.2 = some y.2)
    (P := fun member => ¬ member.2.toJson.Embeds) h fun member hmember z hz => by
      obtain ⟨y, hy, hsame⟩ := ih (Datum.plain_object_iff.mp hd member hmember) hz.2
      exact ⟨(member.1, y), ⟨rfl, hy⟩, fun hno => by rw [hsame hno, ← hz.1]⟩
  refine ⟨ys, value?_map_eq_some_iff.mpr hys, fun hno => hsame fun member hmember hembeds => ?_⟩
  refine hno (hembeds.mono ?_)
  rw [Datum.toJson, Datum.toJsonMembers_eq]
  exact .member (List.mem_map.mpr ⟨member, hmember, rfl⟩) .self

/-- A row that fits a direct target by way of its JSON form fits it. -/
theorem IsDirect.exists_value (ht : t.IsDirect) : ∀ {d x}, d.Plain → t.read d.toJson = .ok x →
    ∃ y, t.value? d = some y ∧ (¬ d.toJson.Embeds → y = x) := by
  induction ht with
  | value =>
    intro d x _ h
    exact ⟨d.toJson, rfl, fun hno => (Json.readValue_eq_self _ x h hno).symm⟩
  | bool =>
    intro d x _ h
    cases d with
    | bool b =>
      cases h
      exact ⟨_, rfl, fun _ => rfl⟩
    | _ => cases h
  | string =>
    intro d x hd h
    cases hs : d.toJson with
    | string s =>
      rw [hs] at h
      cases h
      rw [hd.eq_string hs]
      exact ⟨_, rfl, fun _ => rfl⟩
    | _ =>
      rw [hs] at h
      cases h
  | int kind =>
    intro d x _ h
    cases d with
    | number n =>
      refine ⟨x, ?_, fun _ => rfl⟩
      have hread := Datum.toInt_of_some (Json.wide?_of_readInt h)
      rw [value?_eq_some_iff, decode, hread, Filled.ofExcept]
    | _ => cases h
  | option _ ih =>
    intro d x hd h
    by_cases hnull : d = .null
    · subst hnull
      cases h
      exact ⟨none, rfl, fun _ => rfl⟩
    · obtain ⟨z, hz, rfl⟩ := (Json.readOption_eq_ok_iff (Datum.toJson_ne_null hnull)).mp h
      obtain ⟨y, hy, hsame⟩ := ih hd hz
      exact ⟨some y, by rw [value?_option hnull, hy]; rfl, fun hno => congrArg some (hsame hno)⟩
  | list _ ih =>
    intro d x hd h
    cases d with
    | array items =>
      obtain ⟨ys, hys, hsame⟩ := exists_forall₂ (P := fun item => ¬ item.toJson.Embeds)
        (Json.readList_toJson_eq_ok_iff.mp h) fun item hitem z hz =>
          ih (Datum.plain_array_iff.mp hd item hitem) hz
      refine ⟨ys, value?_list_eq_some_iff.mpr hys, fun hno => hsame fun item hitem hembeds => ?_⟩
      refine hno (hembeds.mono ?_)
      rw [Datum.toJson, Datum.toJsonItems_eq]
      exact .item (List.mem_map_of_mem hitem) .self
    | _ => cases h
  | map _ ih =>
    intro d x hd h
    cases d with
    | object members => exact exists_value_of_readMap hd h ih
    | _ => cases h
  | unorderedMap _ ih =>
    intro d x hd h
    rw [value?_unorderedMap]
    cases d with
    | object members => exact exists_value_of_readMap hd h ih
    | _ => cases h

end Target

/-- A row without times and byte strings that fits a direct target by way of its JSON form fits it
directly, whatever the destination held before.  It leaves the same value there, unless a text is
embedded in the row, and that is so for no row that comes from a text. -/
theorem json_decoded_directly {t : Target} (ht : t.IsDirect) {d : Datum} (hd : d.Plain)
    {old x : t.Slot} (h : (Target.json t).decode old d = .done x) :
    (∃ y, ∀ slot, t.decode slot d = .done y) ∧
    (¬ d.toJson.Embeds → ∀ slot, t.decode slot d = .done x) ∧
    (d.IsRow → ∀ slot, t.decode slot d = .done x) := by
  have hread : t.read d.toJson = .ok x := by
    rw [Target.decode, Filled.json] at h
    cases hread : t.read d.toJson with
    | error fault =>
      rw [hread] at h
      cases h
    | ok z =>
      rw [hread] at h
      cases h
      rfl
  obtain ⟨y, hy, hsame⟩ := ht.exists_value hd hread
  have hx (hno : ¬ d.toJson.Embeds) (slot : t.Slot) : t.decode slot d = .done x := by
    rw [Target.decode_eq_done slot hy, hsame hno]
  exact ⟨⟨y, fun slot => Target.decode_eq_done slot hy⟩, hx, fun hrow => hx hrow.not_embeds⟩

/-- A map of lists of small integers, some of them missing. -/
theorem json_decoded_directly_nested :
    let t : Target := .map (.list (.option (.int .i8)))
    let row := Datum.object
      [("a", .array [.number (.natural 7), .null, .number (.negative 127)]), ("b", .array [])]
    let x : t.Slot := [("a", [some ⟨7, by decide⟩, none, some ⟨-128, by decide⟩]), ("b", [])]
    (Target.json t).decode [] row = .done x ∧ ∀ slot, t.decode slot row = .done x := by
  intro t row x
  have ht : t.IsDirect := .map (.list (.option (.int .i8)))
  have hnull : Datum.null.Plain := ⟨(fun _ h => by cases h), (fun _ h => by cases h)⟩
  have hnumber (n : Number) : (Datum.number n).Plain :=
    ⟨(fun _ h => by cases h), (fun _ h => by cases h)⟩
  have hd : row.Plain := by
    simp [row, Datum.plain_object_iff, Datum.plain_array_iff, hnull, hnumber]
  have hno : ¬ row.toJson.Embeds := by
    simp [row, Datum.toJson, Datum.toJsonItems, Datum.toJsonMembers, Json.embeds_object_iff,
      Json.embeds_array_iff, Json.not_embeds_null, Json.not_embeds_number]
  have hjson : (Target.json t).decode [] row = .done x := by rfl
  exact ⟨hjson, (json_decoded_directly ht hd hjson).2.1 hno⟩

/-- A text that is embedded in a row is read on the way through the JSON form only, so the number that
it spells is not what direct decoding leaves. -/
theorem embedded_text_not_read_directly :
    let row := Datum.object [(Json.embeddedKey, .string "1")]
    Target.value.IsDirect ∧ row.Plain ∧
      (Target.json .value).decode .null row = .done (.number (.natural 1)) ∧
      ∀ slot : Json, Target.value.decode slot row ≠ .done (.number (.natural 1)) := by
  intro row
  have hplain : row.Plain := by
    simp only [row, Datum.plain_object_iff, List.forall_mem_singleton]
    exact ⟨(fun _ h => by cases h), (fun _ h => by cases h)⟩
  refine ⟨.value, hplain, by rfl, fun slot hsame => ?_⟩
  cases hsame

end RowStream
