import RowStream.Proofs.Embedded
import RowStream.Reply

/-!
# Replies and the values of their texts

A reply is read off the outline of its text, its batches unread.  What it says is what the value of
the whole text says: its kind, its batches one by one as they are parsed later, and its profile.
-/

namespace RowStream

open Json

/-! ## 1. Members of a value -/

namespace Members

variable {α : Type} {key : String}

theorem get?_append (members others : List (String × α)) :
    get? key (members ++ others) = (get? key members).or (get? key others) := by
  simp only [get?, List.find?_append]
  cases members.find? fun member => member.1 == key <;> rfl

theorem get?_insert (k : String) (value : α) (members : List (String × α)) :
    get? key (insert k value members) = if k = key then some value else get? key members := by
  induction members with
  | nil =>
    rw [insert, get?_cons]
  | cons member members ih =>
    rw [insert]
    split
    · rw [get?_cons]
    · split
      next heq =>
        subst heq
        rw [get?_cons, get?_cons]
        split <;> rfl
      next hne =>
        rw [get?_cons, ih, get?_cons]
        split
        next hkey => rw [if_neg (hkey ▸ hne)]
        next => rfl

/-- Of equal keys the last one counts. -/
theorem get?_ofList (members : List (String × α)) :
    get? key (ofList members) = get? key members.reverse := by
  have hfold (sorted : List (String × α)) :
      get? key (members.foldl (fun sorted member => insert member.1 member.2 sorted) sorted) =
        (get? key members.reverse).or (get? key sorted) := by
    induction members generalizing sorted with
    | nil => rfl
    | cons member members ih =>
      rw [List.foldl_cons, ih, get?_insert, List.reverse_cons, get?_append, Option.or_assoc,
        get?_cons]
      split <;> rfl
  rw [ofList, hfold]
  exact Option.or_none

end Members

/-! ## 2. Members of an outline -/

namespace Json

open Outline

/-- The items of an array, each with its text. -/
def Outline.Items.list : Outline.Items → List (List Char × Outline)
  | .broken | .close => []
  | .item text value rest => (text, value) :: rest.list

/-- The members of an object as they stand. -/
def Outline.Members.list : Outline.Members → List (Spelled × Outline)
  | .broken | .close => []
  | .member key value rest => (key, value) :: rest.list

theorem Outline.SpellsItems.spells : ∀ {items : Outline.Items} {p : List Char},
    SpellsItems p items → ∀ item ∈ items.list, Spells item.1 item.2
  | .broken, _, h => by cases h
  | .close, _, h => by cases h
  | .item text value rest, _, h => by
    obtain ⟨htext, -, hrest⟩ := h.first
    rw [Outline.Items.list, List.forall_mem_cons]
    refine ⟨htext, ?_⟩
    rcases hrest with rfl | ⟨q, hq, -⟩
    · exact fun _ hitem => by cases hitem
    · exact hq.spells

theorem Outline.SpellsMembers.spells : ∀ {members : Outline.Members} {p : List Char},
    SpellsMembers p members → ∀ member ∈ members.list, ∃ q, Spells q member.2
  | .broken, _, h => by cases h
  | .close, _, h => by cases h
  | .member key value rest, _, h => by
    obtain ⟨text, htext, -, hrest⟩ := h.first
    rw [Outline.Members.list, List.forall_mem_cons]
    refine ⟨⟨text, htext⟩, ?_⟩
    rcases hrest with rfl | ⟨q, hq, -⟩
    · exact fun _ hmember => by cases hmember
    · exact hq.spells

section

variable {embedded : String → Except Fault Json} {depth : Nat}

theorem ofItems_eq_ok : ∀ {items : Outline.Items} {values : List Json},
    ofItems embedded items depth = .ok values →
      List.Forall₂ (fun item value => ofOutline embedded item.2 depth = .ok value) items.list values
  | .broken, _, h => by cases h
  | .close, _, h => by
    cases h
    exact .nil
  | .item text value rest, _, h => by
    rw [ofItems] at h
    obtain ⟨first, hfirst, h⟩ := bind_eq_ok_iff.mp h
    obtain ⟨values, hvalues, h⟩ := bind_eq_ok_iff.mp h
    cases h
    exact .cons hfirst (ofItems_eq_ok hvalues)

/-- A field of a record that is taken from the member of a name, and from no other. -/
structure Field {σ α : Type} (add : σ → String → Outline → Except Fault σ) (field : σ → Option α)
    (name : String) (read : Outline → Except Fault α) : Prop where
  own : ∀ {met met' value}, add met name value = .ok met' →
    field met = none ∧ ∃ a, read value = .ok a ∧ field met' = some a
  other : ∀ {met met' other value}, other ≠ name → add met other value = .ok met' →
    field met' = field met

-- A field is taken once or never, and so the value has one member of its name or none.
theorem Field.gather {σ α : Type} {add : σ → String → Outline → Except Fault σ}
    {field : σ → Option α} {name : String} {read : Outline → Except Fault α}
    (hfield : Field add field name read) : ∀ {members : Outline.Members} {met met' : σ}
    {values : List (String × Json)}, members.gather add met = .ok met' →
      ofMembers embedded members depth = .ok values →
      (field met' = field met ∧ Members.get? name values.reverse = none) ∨
      (field met = none ∧ ∃ key value v a, (key, value) ∈ members.list ∧
        Spelled.read key = .ok name ∧ ofOutline embedded value depth = .ok v ∧
        read value = .ok a ∧ Members.get? name values.reverse = some v ∧ field met' = some a)
  | .broken, _, _, _, h, _ => by cases h
  | .close, _, _, _, h, hvalues => by
    cases h
    cases hvalues
    exact .inl ⟨rfl, rfl⟩
  | .member key value rest, met, met', _, h, hvalues => by
    rw [Outline.Members.gather] at h
    rw [ofMembers] at hvalues
    obtain ⟨other, hother, h⟩ := bind_eq_ok_iff.mp h
    obtain ⟨middle, hadd, h⟩ := bind_eq_ok_iff.mp h
    obtain ⟨_, hsame, hvalues⟩ := bind_eq_ok_iff.mp hvalues
    cases hother.symm.trans hsame
    obtain ⟨v, hv, hvalues⟩ := bind_eq_ok_iff.mp hvalues
    obtain ⟨values, hrest, hvalues⟩ := bind_eq_ok_iff.mp hvalues
    cases hvalues
    rw [List.reverse_cons, Members.get?_append, Members.get?_cons]
    rcases hfield.gather h hrest with ⟨hkept, hnone⟩ |
      ⟨hnone, key', value', v', a, hmem, hkey, hv', ha, hget, hmet⟩
    · rw [hnone, Option.none_or]
      by_cases hname : other = name
      · subst hname
        obtain ⟨hmet, a, ha, hmiddle⟩ := hfield.own hadd
        rw [if_pos rfl]
        exact .inr ⟨hmet, key, value, v, a, .head _, hother, hv, ha, rfl, hkept.trans hmiddle⟩
      · rw [if_neg hname]
        exact .inl ⟨hkept.trans (hfield.other hname hadd), rfl⟩
    · have hname : other ≠ name := by
        rintro rfl
        obtain ⟨-, a, -, hmiddle⟩ := hfield.own hadd
        cases hnone.symm.trans hmiddle
      rw [hget]
      exact .inr ⟨(hfield.other hname hadd).symm.trans hnone, key', value', v', a, .tail _ hmem,
        hkey, hv', ha, rfl, hmet⟩

end

end Json

/-! ## 3. Fields of a reply -/

namespace Reply

open Json

theorem once_eq_ok {α : Type} {name : String} {met : Option α} (h : once name met = .ok ()) :
    met = none := by
  cases met with
  | none => rfl
  | some a => cases h

variable {met met' : Seen} {name : String} {value : Outline}

-- Which member was added, and what it changed.
theorem Seen.add_cases (h : met.add name value = .ok met') :
    (name = "t" ∧ met.kind = none ∧ ∃ kind, readKind value = .ok kind ∧
      met' = { met with kind := some kind }) ∨
    (name = "r" ∧ met.batches = none ∧ ∃ batches, readBatches value = .ok batches ∧
      met' = { met with batches := some batches }) ∨
    (name = "p" ∧ met.profile = none ∧ ∃ profile, readProfile value = .ok profile ∧
      met' = { met with profile := some profile }) ∨
    (name ≠ "t" ∧ name ≠ "r" ∧ name ≠ "p" ∧ met' = met) := by
  unfold Seen.add at h
  split at h
  next hkind =>
    obtain ⟨_, honce, h⟩ := bind_eq_ok_iff.mp h
    obtain ⟨kind, hread, h⟩ := bind_eq_ok_iff.mp h
    cases h
    exact .inl ⟨hkind, once_eq_ok honce, kind, hread, rfl⟩
  next hkind =>
    split at h
    next hbatches =>
      obtain ⟨_, honce, h⟩ := bind_eq_ok_iff.mp h
      obtain ⟨batches, hread, h⟩ := bind_eq_ok_iff.mp h
      cases h
      exact .inr (.inl ⟨hbatches, once_eq_ok honce, batches, hread, rfl⟩)
    next hbatches =>
      split at h
      next hprofile =>
        obtain ⟨_, honce, h⟩ := bind_eq_ok_iff.mp h
        obtain ⟨profile, hread, h⟩ := bind_eq_ok_iff.mp h
        cases h
        exact .inr (.inr (.inl ⟨hprofile, once_eq_ok honce, profile, hread, rfl⟩))
      next hprofile =>
        obtain ⟨_, -, h⟩ := bind_eq_ok_iff.mp h
        cases h
        exact .inr (.inr (.inr ⟨hkind, hbatches, hprofile, rfl⟩))

theorem Seen.field_kind : Field Seen.add Seen.kind "t" readKind where
  own h := by
    rcases Seen.add_cases h with ⟨-, hmet, kind, hread, rfl⟩ | ⟨hname, -⟩ | ⟨hname, -⟩ | ⟨hname, -⟩
    · exact ⟨hmet, kind, hread, rfl⟩
    all_goals exact absurd hname (by decide)
  other hname h := by
    rcases Seen.add_cases h with ⟨h, -⟩ | ⟨-, -, _, -, rfl⟩ | ⟨-, -, _, -, rfl⟩ | ⟨-, -, -, rfl⟩
    · exact absurd h hname
    all_goals rfl

theorem Seen.field_batches : Field Seen.add Seen.batches "r" readBatches where
  own h := by
    rcases Seen.add_cases h with ⟨hname, -⟩ | ⟨-, hmet, batches, hread, rfl⟩ | ⟨hname, -⟩ |
      ⟨-, hname, -⟩
    · exact absurd hname (by decide)
    · exact ⟨hmet, batches, hread, rfl⟩
    all_goals exact absurd hname (by decide)
  other hname h := by
    rcases Seen.add_cases h with ⟨-, -, _, -, rfl⟩ | ⟨h, -⟩ | ⟨-, -, _, -, rfl⟩ | ⟨-, -, -, rfl⟩
    · rfl
    · exact absurd h hname
    all_goals rfl

theorem Seen.field_profile : Field Seen.add Seen.profile "p" readProfile where
  own h := by
    rcases Seen.add_cases h with ⟨hname, -⟩ | ⟨hname, -⟩ | ⟨-, hmet, profile, hread, rfl⟩ |
      ⟨-, -, hname, -⟩
    · exact absurd hname (by decide)
    · exact absurd hname (by decide)
    · exact ⟨hmet, profile, hread, rfl⟩
    · exact absurd rfl hname
  other hname h := by
    rcases Seen.add_cases h with ⟨-, -, _, -, rfl⟩ | ⟨-, -, _, -, rfl⟩ | ⟨h, -⟩ | ⟨-, -, -, rfl⟩
    · rfl
    · rfl
    · exact absurd h hname
    · rfl

/-! ## 4. What fields are read from -/

theorem readInteger_eq_ok {outline : Outline} {i : Int} (h : outline.readInteger = .ok i) :
    ∃ spelling n, outline = .number spelling ∧ readNumber spelling = .ok n ∧
      n.integer? = some i := by
  cases outline with
  | number spelling =>
    rw [Outline.readInteger] at h
    obtain ⟨n, hn, h⟩ := bind_eq_ok_iff.mp h
    refine ⟨spelling, n, rfl, hn, ?_⟩
    cases n with
    | natural n =>
      dsimp only at h
      split at h
      · cases h
        rfl
      · cases h
    | negative m =>
      cases h
      rfl
    | binary x => cases h
  | _ => exact absurd h (Outline.reject_ne_ok _ _ i)

theorem readKind_eq_ok {outline : Outline} {kind : Kind} (h : readKind outline = .ok kind) :
    ∃ spelling n i, outline = .number spelling ∧ readNumber spelling = .ok n ∧
      n.integer? = some i ∧ Kind.ofCode? i = some kind := by
  obtain ⟨i, hi, h⟩ := bind_eq_ok_iff.mp h
  obtain ⟨spelling, n, houtline, hn, hinteger⟩ := readInteger_eq_ok hi
  refine ⟨spelling, n, i, houtline, hn, hinteger, ?_⟩
  unfold Kind.ofCode at h
  split at h
  next hcode =>
    cases h
    exact hcode
  next => cases h

theorem readBatchItems_eq_ok : ∀ {items : Outline.Items} {batches : List String},
    readBatchItems items = .ok batches → batches = items.list.map fun item => String.ofList item.1
  | .broken, _, h => by cases h
  | .close, _, h => by
    cases h
    rfl
  | .item text value rest, _, h => by
    rw [readBatchItems] at h
    obtain ⟨_, -, h⟩ := bind_eq_ok_iff.mp h
    obtain ⟨batches, hbatches, h⟩ := bind_eq_ok_iff.mp h
    cases h
    rw [readBatchItems_eq_ok hbatches]
    rfl

theorem readBatches_eq_ok {outline : Outline} {batches : List String}
    (h : readBatches outline = .ok batches) : ∃ items, outline = .array items ∧
      batches = items.list.map fun item => String.ofList item.1 := by
  cases outline with
  | array items => exact ⟨items, rfl, readBatchItems_eq_ok h⟩
  | _ => exact absurd h (Outline.reject_ne_ok _ _ batches)

theorem readProfile_eq_ok {outline : Outline} {profile : Option Json}
    (h : readProfile outline = .ok profile) : (outline = .null ∧ profile = none) ∨
      outline ≠ .null ∧
        ∃ v, profile = some v ∧ ofOutline Json.parse outline (nestingLimit - 1) = .ok v := by
  cases outline with
  | null =>
    cases h
    exact .inl ⟨rfl, rfl⟩
  | _ =>
    obtain ⟨v, hv, h⟩ := bind_eq_ok_iff.mp h
    cases h
    exact .inr ⟨Outline.noConfusion, v, rfl, hv⟩

-- Each batch is the text of an item, which is a text of the value of the item.
theorem parse_batches {p : List Char} {items : Outline.Items} {depth : Nat} {v : Json}
    (hp : Outline.Spells p (.array items)) (hdepth : depth ≤ nestingLimit)
    (h : ofOutline Json.parse (.array items) depth = .ok v) : ∃ values, v = .array values ∧
      List.Forall₂ (fun batch value => Json.parse batch = .ok value)
        (items.list.map fun item => String.ofList item.1) values := by
  cases depth with
  | zero => cases h
  | succ depth =>
    rw [ofOutline] at h
    obtain ⟨values, hvalues, h⟩ := bind_eq_ok_iff.mp h
    cases h
    refine ⟨values, rfl, List.forall₂_map_left_iff.mpr ?_⟩
    have hspells : ∀ item ∈ items.list, Outline.Spells item.1 item.2 := by
      cases hp with
      | emptyArray => exact fun _ hitem => by cases hitem
      | array hp => exact hp.spells
    have hitems := (List.forall₂_and_left _ _).mpr ⟨hspells, ofItems_eq_ok hvalues⟩
    exact hitems.imp fun item value h => parse_of_spells h.1 (Nat.le_of_succ_le hdepth) h.2

/-! ## 5. Replies -/

theorem read_object_eq_ok {members : Outline.Members} {reply : Reply}
    (h : read (.object members) = .ok reply) :
    ∃ seen : Seen, members.gather Seen.add {} = .ok seen ∧ seen.kind = some reply.kind ∧
      reply.batches = seen.batches.getD [] ∧ reply.profile = seen.profile.getD none := by
  obtain ⟨seen, hseen, h⟩ := bind_eq_ok_iff.mp h
  refine ⟨seen, hseen, ?_⟩
  cases hkind : seen.kind with
  | none =>
    rw [hkind] at h
    cases h
  | some kind =>
    rw [hkind] at h
    cases h
    exact ⟨rfl, rfl, rfl⟩

-- The object of a reply has a kind among its members, so that it does not stand for a text.
theorem members_of_value {members : Outline.Members} {seen : Seen} {kind : Kind} {v : Json}
    (hseen : members.gather Seen.add {} = .ok seen) (hkind : seen.kind = some kind)
    (hv : ofOutline Json.parse (.object members) nestingLimit = .ok v) :
    ∃ values, v = .object (Members.ofList values) ∧
      ofMembers Json.parse members (nestingLimit - 1) = .ok values := by
  cases members with
  | broken => cases hseen
  | close =>
    cases hseen
    cases hkind
  | member key value rest =>
    rcases ofObject_eq_ok hv with ⟨body, s, hkey, -, -, -, rfl⟩ |
      ⟨name, first, members, hname, -, hfirst, hmembers, rfl⟩
    · rw [Outline.Members.gather] at hseen
      obtain ⟨name, hname, hseen⟩ := bind_eq_ok_iff.mp hseen
      obtain ⟨met, hadd, hseen⟩ := bind_eq_ok_iff.mp hseen
      cases hseen
      cases hname.symm.trans hkey
      cases (Seen.field_kind.other (by decide) hadd).symm.trans hkind
    · refine ⟨_, rfl, bind_eq_ok_iff.mpr ⟨name, hname, ?_⟩⟩
      exact bind_eq_ok_iff.mpr ⟨first, hfirst, bind_eq_ok_iff.mpr ⟨members, hmembers, rfl⟩⟩

/-- An outline is of an object that stands for a text embedded in it. -/
def StandsForText : Outline → Prop
  | .object (.member key _ _) => Spelled.read key = .ok embeddedKey
  | _ => False

theorem standsForText_of_null {outline : Outline} {depth : Nat}
    (h : ofOutline Json.parse outline depth = .ok .null) (hne : outline ≠ .null) :
    StandsForText outline := by
  cases outline with
  | null => exact absurd rfl hne
  | broken => cases h
  | bool b => cases h
  | number spelling =>
    rw [ofOutline] at h
    obtain ⟨_, -, h⟩ := bind_eq_ok_iff.mp h
    cases h
  | string body =>
    rw [ofOutline] at h
    obtain ⟨_, -, h⟩ := bind_eq_ok_iff.mp h
    cases h
  | array items =>
    cases depth with
    | zero => cases h
    | succ depth =>
      rw [ofOutline] at h
      obtain ⟨_, -, h⟩ := bind_eq_ok_iff.mp h
      cases h
  | object members =>
    cases depth with
    | zero => cases h
    | succ depth =>
      cases members with
      | broken => cases h
      | close => cases h
      | member key value rest =>
        rcases ofObject_eq_ok h with ⟨_, _, hkey, -⟩ | ⟨_, _, _, -, -, -, -, h⟩
        · exact hkey
        · cases h

/-- A text has, among the members of its object, one of a name that stands for a text embedded in
it. -/
def Embeds (text : String) (name : String) : Prop :=
  ∃ members key value, (Outline.ofText text).value = .object members ∧
    (key, value) ∈ members.list ∧ Spelled.read key = .ok name ∧ StandsForText value

/-- A reply is what the members of an object say: its kind is that of the number under `t`; its
batches are texts of the items under `r`, in their order; and its profile is the value under `p`, or
none if that is null. -/
structure AgreesWith (reply : Reply) (members : List (String × Json)) : Prop where
  kind : ∃ n i, Members.get? "t" members = some (.number n) ∧ n.integer? = some i ∧
    Kind.ofCode? i = some reply.kind
  noBatches : Members.get? "r" members = none → reply.batches = []
  batches : ∀ v, Members.get? "r" members = some v → ∃ items, v = .array items ∧
    List.Forall₂ (fun batch item => Json.parse batch = .ok item) reply.batches items
  noProfile : Members.get? "p" members = none → reply.profile = none
  profile : ∀ v, Members.get? "p" members = some v →
    reply.profile = some v ∨ v = .null ∧ reply.profile = none

section

variable {text : String} {outlines : Outline.Members} {values : List (String × Json)} {seen : Seen}

theorem kind_agrees (hseen : outlines.gather Seen.add {} = .ok seen)
    (hvalues : ofMembers Json.parse outlines (nestingLimit - 1) = .ok values) {kind : Kind}
    (hkind : seen.kind = some kind) :
    ∃ n i, Members.get? "t" (Members.ofList values) = some (.number n) ∧ n.integer? = some i ∧
      Kind.ofCode? i = some kind := by
  rw [Members.get?_ofList]
  rcases Seen.field_kind.gather hseen hvalues with ⟨hnone, -⟩ |
    ⟨-, key, outline, v, kind', -, -, hv, hread, hget, hsome⟩
  · cases hnone.symm.trans hkind
  · cases hsome.symm.trans hkind
    obtain ⟨spelling, n, i, rfl, hn, hinteger, hcode⟩ := readKind_eq_ok hread
    rw [ofOutline, hn] at hv
    cases hv
    exact ⟨n, i, hget, hinteger, hcode⟩

theorem batches_agree {p : List Char} (hp : Outline.Spells p (.object outlines))
    (hseen : outlines.gather Seen.add {} = .ok seen)
    (hvalues : ofMembers Json.parse outlines (nestingLimit - 1) = .ok values) :
    (Members.get? "r" (Members.ofList values) = none → seen.batches = none) ∧
    ∀ v, Members.get? "r" (Members.ofList values) = some v → ∃ items batches, v = .array items ∧
      seen.batches = some batches ∧
      List.Forall₂ (fun batch item => Json.parse batch = .ok item) batches items := by
  rw [Members.get?_ofList]
  rcases Seen.field_batches.gather hseen hvalues with ⟨hnone, hget⟩ |
    ⟨-, key, outline, v, batches, hmem, -, hv, hread, hget, hsome⟩
  · exact ⟨fun _ => hnone, fun v hv => by cases hget.symm.trans hv⟩
  · obtain ⟨items, rfl, rfl⟩ := readBatches_eq_ok hread
    have hspells : ∀ member ∈ outlines.list, ∃ q, Outline.Spells q member.2 := by
      cases hp with
      | emptyObject => exact fun _ hmember => by cases hmember
      | object hp => exact hp.spells
    obtain ⟨q, hq⟩ := hspells _ hmem
    obtain ⟨values, rfl, hparse⟩ := parse_batches hq (by decide) hv
    refine ⟨fun hnone => ?_, fun v hv => ?_⟩
    · cases hget.symm.trans hnone
    · cases hget.symm.trans hv
      exact ⟨values, _, rfl, hsome, hparse⟩

theorem profile_agrees (hseen : outlines.gather Seen.add {} = .ok seen)
    (hvalues : ofMembers Json.parse outlines (nestingLimit - 1) = .ok values) :
    (Members.get? "p" (Members.ofList values) = none → seen.profile = none) ∧
    ∀ v, Members.get? "p" (Members.ofList values) = some v →
      (v = .null ∧ seen.profile = some none) ∨ seen.profile = some (some v) ∧
        (v = .null → ∃ key outline, (key, outline) ∈ outlines.list ∧
          Spelled.read key = .ok "p" ∧ StandsForText outline) := by
  rw [Members.get?_ofList]
  rcases Seen.field_profile.gather hseen hvalues with ⟨hnone, hget⟩ |
    ⟨-, key, outline, v, profile, hmem, hkey, hv, hread, hget, hsome⟩
  · exact ⟨fun _ => hnone, fun v hv => by cases hget.symm.trans hv⟩
  · refine ⟨fun hnone => (by cases hget.symm.trans hnone), fun v' hv' => ?_⟩
    cases hget.symm.trans hv'
    rcases readProfile_eq_ok hread with ⟨rfl, rfl⟩ | ⟨hne, v', rfl, hv'⟩
    · cases hv
      exact .inl ⟨rfl, hsome⟩
    · cases hv.symm.trans hv'
      refine .inr ⟨hsome, ?_⟩
      rintro rfl
      exact ⟨key, outline, hmem, hkey, standsForText_of_null hv hne⟩

end

theorem readText_of_parse {text : String} {reply : Reply} (h : parse text = .ok reply) :
    readText read text = .ok reply := by
  rw [parse] at h
  cases hread : readText read text with
  | ok reply' =>
    rw [hread] at h
    cases h
    rfl
  | error fault =>
    rw [hread] at h
    cases h

/-- A text that begins an object is one. -/
theorem object_of_spells {p r : List Char} {outline : Outline} (h : Outline.Spells p outline)
    (hp : (p ++ r).head? = some '\x7b') : ∃ members, outline = .object members := by
  cases h with
  | emptyObject => exact ⟨_, rfl⟩
  | object => exact ⟨_, rfl⟩
  | number h =>
    obtain ⟨c, q, rfl, hc⟩ := Outline.exists_digit h
    cases hp
    exact absurd (by decide) hc
  | _ => cases hp

/-- Reading a reply off its text agrees with parsing the text as a whole.  If a text that begins an
object gives a reply and has a value, the value is an object and the reply is what its members say,
each batch being a text that is later parsed to the item it stands for.  A null profile is none;
only an object that merely stands for a null, by the key that embeds a text, is not taken for
one. -/
theorem parse_agrees {text : String} {reply : Reply} {v : Json} (hreply : parse text = .ok reply)
    (hvalue : Json.parse text = .ok v) (hobject : (Outline.skip text.toList).head? = some '\x7b') :
    ∃ members, v = .object members ∧ reply.AgreesWith members ∧
      (Members.get? "p" members = some .null → ¬ Embeds text "p" → reply.profile = none) := by
  obtain ⟨hreply, -⟩ := readText_eq_ok_iff.mp (readText_of_parse hreply)
  obtain ⟨hvalue, -⟩ := parse_eq_ok_iff.mp hvalue
  obtain ⟨b, p, r, hb, htext, hp⟩ := Outline.exists_spells (complete_of_ofOutline _ hvalue)
  have hhead : (p ++ r).head? = some '\x7b' := by
    obtain ⟨c, q, rfl, hc, -⟩ := hp.head
    rw [htext, List.cons_append, Outline.skip_to hb hc] at hobject
    exact hobject
  obtain ⟨outlines, houtline⟩ := object_of_spells hp hhead
  change Outline.Spells p (Outline.ofText text).value at hp
  change (Outline.ofText text).value = .object outlines at houtline
  rw [houtline] at hp hreply hvalue
  obtain ⟨seen, hseen, hkind, hbatches, hprofile⟩ := read_object_eq_ok hreply
  obtain ⟨values, rfl, hvalues⟩ := members_of_value hseen hkind hvalue
  obtain ⟨hnoBatches, hsomeBatches⟩ := batches_agree hp hseen hvalues
  obtain ⟨hnoProfile, hsomeProfile⟩ := profile_agrees hseen hvalues
  refine ⟨Members.ofList values, rfl,
    ⟨kind_agrees hseen hvalues hkind, fun hget => ?_, fun v hget => ?_, fun hget => ?_,
      fun v hget => ?_⟩, fun hget hembeds => ?_⟩
  · rw [hbatches, hnoBatches hget]
    rfl
  · obtain ⟨items, batches, rfl, hsome, hparse⟩ := hsomeBatches v hget
    rw [hbatches, hsome]
    exact ⟨items, rfl, hparse⟩
  · rw [hprofile, hnoProfile hget]
    rfl
  · rw [hprofile]
    rcases hsomeProfile v hget with ⟨hnull, hsome⟩ | ⟨hsome, -⟩
    · exact .inr ⟨hnull, by rw [hsome]; rfl⟩
    · exact .inl (by rw [hsome]; rfl)
  · rw [hprofile]
    rcases hsomeProfile .null hget with ⟨-, hsome⟩ | ⟨-, hnull⟩
    · rw [hsome]
      rfl
    · obtain ⟨key, outline, hmem, hkey, hstands⟩ := hnull rfl
      exact absurd ⟨outlines, key, outline, houtline, hmem, hkey, hstands⟩ hembeds

-- Brackets and quotes stand in strings, keys are escaped, and the kind comes last.
theorem parse_agrees_nested :
    let text :=
      "\x7b\"p\":null,\"r\" : [ \x7b\"a\\u005d\":\"\\\"]\"\x7d ,[1, [ ]]\t],\"\\u0074\":3\x7d"
    ∃ reply members, parse text = .ok reply ∧ Json.parse text = .ok (.object members) ∧
      reply.batches = ["\x7b\"a\\u005d\":\"\\\"]\"\x7d", "[1, [ ]]"] ∧
      reply.AgreesWith members := by
  intro text
  have hbatches : (parse text).toOption.map (·.batches) =
      some ["\x7b\"a\\u005d\":\"\\\"]\"\x7d", "[1, [ ]]"] := by decide +kernel
  have hparse : (Json.parse text).isOk = true := by decide +kernel
  cases hreply : parse text with
  | error e =>
    rw [hreply] at hbatches
    cases hbatches
  | ok reply =>
    cases hvalue : Json.parse text with
    | error fault =>
      rw [hvalue] at hparse
      cases hparse
    | ok v =>
      obtain ⟨members, rfl, hagrees, -⟩ := parse_agrees hreply hvalue (by decide +kernel)
      rw [hreply] at hbatches
      exact ⟨reply, members, rfl, rfl, Option.some.inj hbatches, hagrees⟩

-- A null that is embedded as a text is a profile all the same.
example :
    let text := "\x7b\"t\":1,\"p\":\x7b\"$serde_json::private::RawValue\":\"null\"\x7d\x7d"
    (parse text).toOption.map (·.profile.isSome) = some true := by
  decide +kernel

end Reply
end RowStream
