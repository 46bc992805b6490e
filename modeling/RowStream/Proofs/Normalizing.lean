import RowStream.Proofs.Parts

/-!
# Malformed tagged objects

Normalization is compared with a walk over the JSON value in document order.  A tagged object whose
type is presented natively is looked at as a whole: a time and a byte string are not entered, and of
groups only the listed entries are, each after a look at the entry itself.  Main statement:
normalization fails exactly if the walk meets something malformed, with the error of the first such
thing, and otherwise gives the row value that the rules of `Becomes` describe, in which no natively
presented tag is left.
-/

namespace RowStream.Pseudotype

variable {options : Options}

/-! ## 1. The walk -/

/-- What a walk over a JSON value meets. -/
inductive Encounter
  /-- An object that stands for a time. -/
  | time (members : List (String × Json))
  /-- An object that stands for a byte string. -/
  | binary (members : List (String × Json))
  /-- An object that stands for groups. -/
  | group (members : List (String × Json))
  /-- An entry listed by an object that stands for groups. -/
  | entry (item : Json)

/-- The entries that the members of an object list. -/
def listed? (members : List (String × Json)) : Option (List Json) :=
  match Members.get? "data" members with
  | some (.array items) => some items
  | _ => none

theorem listed?_eq_none_iff {members : List (String × Json)} :
    listed? members = none ↔ ∀ items, Members.get? "data" members ≠ some (.array items) := by
  unfold listed?
  split
  next items hdata => simp [hdata]
  next hdata => exact ⟨fun _ items heq => hdata items heq, fun _ => rfl⟩

theorem sizeOf_lt_of_listed {members : List (String × Json)} {item : Json}
    (h : item ∈ (listed? members).getD []) : sizeOf item < sizeOf members := by
  unfold listed? at h
  split at h
  next items hdata =>
    have hitem := List.sizeOf_lt_of_mem h
    have harray := Json.sizeOf_lt_of_mem (Members.mem_of_get? hdata)
    simp only [Json.array.sizeOf_spec] at harray
    simp only [Option.getD_some] at hitem
    omega
  next => cases h

mutual

/-- What a walk over a value meets, in document order. -/
def walk (options : Options) : Json → List Encounter
  | .array items => items.flatMap fun item => walk options item
  | .object members =>
    match nativeTag? options members with
    | some .time => [.time members]
    | some .binary => [.binary members]
    | some .group =>
      .group members ::
        ((listed? members).getD []).attach.flatMap fun ⟨item, _⟩ => walkEntry options item
    | none => members.flatMap fun member => walk options member.2
  | .null | .bool _ | .number _ | .string _ => []
termination_by v => sizeOf v
decreasing_by
  · have := List.sizeOf_lt_of_mem ‹item ∈ items›
    simp only [Json.array.sizeOf_spec]
    omega
  · have := sizeOf_lt_of_listed ‹item ∈ _›
    simp only [Json.object.sizeOf_spec]
    omega
  · have := Json.sizeOf_lt_of_mem ‹member ∈ members›
    simp only [Json.object.sizeOf_spec]
    omega

/-- What a walk over a listed entry meets: the entry, then its group, then its reduction. -/
def walkEntry (options : Options) (item : Json) : List Encounter :=
  .entry item ::
    match item with
    | .array [group, reduction] => walk options group ++ walk options reduction
    | _ => []
termination_by sizeOf item
decreasing_by all_goals simp only [Json.array.sizeOf_spec, List.cons.sizeOf_spec]; omega

end

theorem walk_group {members : List (String × Json)}
    (htag : nativeTag? options members = some .group) :
    walk options (.object members) =
      .group members :: ((listed? members).getD []).flatMap (walkEntry options) := by
  simp only [walk, htag, List.flatMap_subtype, List.unattach_attach]

/-- What holds of everything that a walk enters from a value holds of the value. -/
@[elab_as_elim]
theorem walk_induction {motive : Json → Prop} (options : Options) (null : motive .null)
    (bool : ∀ b, motive (.bool b)) (number : ∀ n, motive (.number n))
    (string : ∀ s, motive (.string s))
    (array : ∀ items, (∀ item ∈ items, motive item) → motive (.array items))
    (time : ∀ members, nativeTag? options members = some .time → motive (.object members))
    (binary : ∀ members, nativeTag? options members = some .binary → motive (.object members))
    (group : ∀ members, nativeTag? options members = some .group →
      (∀ group reduction, Json.array [group, reduction] ∈ (listed? members).getD [] →
        motive group ∧ motive reduction) → motive (.object members))
    (object : ∀ members, nativeTag? options members = none →
      (∀ member ∈ members, motive member.2) → motive (.object members))
    (v : Json) : motive v := by
  refine (walk.mutual_induct options motive
    (fun item => ∀ group reduction, item = .array [group, reduction] →
      motive group ∧ motive reduction) array time binary ?_ object null bool number string ?_).1 v
  · intro members htag hentries
    exact group members htag fun g r hmem => hentries _ hmem g r rfl
  · rintro _ hparts group reduction rfl
    exact hparts

/-! ## 2. Malformed things -/

namespace Encounter

/-- What is wrong with something that a walk meets.  A later rule for the same thing presupposes
that the earlier ones do not apply. -/
inductive Malformed : Encounter → DecodeError → Prop
  | noEpoch {members : List (String × Json)}
    (h : (Members.get? "epoch_time" members).bind Json.asDouble? = none) :
    Malformed (.time members) (.missingMember "TIME" "epoch_time")
  | noZone {members : List (String × Json)} {epoch : Double}
    (hepoch : (Members.get? "epoch_time" members).bind Json.asDouble? = some epoch)
    (h : (Members.get? "timezone" members).bind Json.asString? = none) :
    Malformed (.time members) (.missingMember "TIME" "timezone")
  | badZone {members : List (String × Json)} {epoch : Double} {zone : String}
    (hepoch : (Members.get? "epoch_time" members).bind Json.asDouble? = some epoch)
    (hzone : (Members.get? "timezone" members).bind Json.asString? = some zone)
    (h : Time.Zone.offset? zone.toList = none) :
    Malformed (.time members) (.invalidTimezone zone)
  | outOfRange {members : List (String × Json)} {epoch : Double} {zone : String} {offset : Int}
    (hepoch : (Members.get? "epoch_time" members).bind Json.asDouble? = some epoch)
    (hzone : (Members.get? "timezone" members).bind Json.asString? = some zone)
    (hoffset : Time.Zone.offset? zone.toList = some offset)
    (h : ∀ millis, millis? epoch = some millis → Time.ofMillis? millis offset = none) :
    Malformed (.time members) (.timeOutOfRange epoch)
  | noData {members : List (String × Json)}
    (h : (Members.get? "data" members).bind Json.asString? = none) :
    Malformed (.binary members) (.missingMember "BINARY" "data")
  | badData {members : List (String × Json)} {data : String} {fault : Base64.Fault}
    (hdata : (Members.get? "data" members).bind Json.asString? = some data)
    (h : Base64.decode data = .error fault) :
    Malformed (.binary members) (.invalidBase64 fault)
  | noList {members : List (String × Json)}
    (h : ∀ items, Members.get? "data" members ≠ some (.array items)) :
    Malformed (.group members) (.missingMember "GROUPED_DATA" "data")
  | noPair {item : Json} (h : ∀ group reduction, item ≠ .array [group, reduction]) :
    Malformed (.entry item) .groupNotPair

/-- Nothing is wrong with something that a walk meets. -/
def WellFormed (met : Encounter) : Prop := ∀ e, ¬ met.Malformed e

end Encounter

/-- The first malformed thing of a walk is malformed in a given way. -/
def FirstMalformed (met : List Encounter) (e : DecodeError) : Prop :=
  ∃ before first after, met = before ++ first :: after ∧
    (∀ passed ∈ before, passed.WellFormed) ∧ first.Malformed e

theorem not_firstMalformed_nil (e : DecodeError) : ¬ FirstMalformed [] e := by
  rintro ⟨before, first, after, h, -⟩
  cases before <;> cases h

theorem firstMalformed_cons {first : Encounter} {met : List Encounter} {e : DecodeError} :
    FirstMalformed (first :: met) e ↔
      first.Malformed e ∨ first.WellFormed ∧ FirstMalformed met e := by
  constructor
  · rintro ⟨before, bad, after, h, hbefore, hbad⟩
    cases before with
    | nil =>
      cases h
      exact .inl hbad
    | cons passed before =>
      cases h
      exact .inr ⟨hbefore _ (.head _), before, bad, after, rfl,
        fun m hm => hbefore m (.tail _ hm), hbad⟩
  · rintro (hbad | ⟨hfirst, before, bad, after, rfl, hbefore, hbad⟩)
    · exact ⟨[], first, met, rfl, (fun _ h => by cases h), hbad⟩
    · refine ⟨first :: before, bad, after, rfl, fun m hm => ?_, hbad⟩
      cases hm with
      | head => exact hfirst
      | tail _ hm => exact hbefore m hm

theorem firstMalformed_append {met later : List Encounter} {e : DecodeError} :
    FirstMalformed (met ++ later) e ↔
      FirstMalformed met e ∨ (∀ m ∈ met, m.WellFormed) ∧ FirstMalformed later e := by
  induction met with
  | nil => simp [not_firstMalformed_nil]
  | cons first met ih =>
    rw [List.cons_append, firstMalformed_cons, firstMalformed_cons, ih, List.forall_mem_cons]
    tauto

-- Something malformed has a first malformed thing before it or is one itself.
theorem exists_firstMalformed {met : List Encounter} (h : ¬ ∀ m ∈ met, m.WellFormed) :
    ∃ e, FirstMalformed met e := by
  induction met with
  | nil => exact absurd (fun _ hm => by cases hm) h
  | cons first met ih =>
    by_cases hfirst : first.WellFormed
    · rw [List.forall_mem_cons, not_and] at h
      obtain ⟨e, he⟩ := ih (h hfirst)
      exact ⟨e, firstMalformed_cons.mpr (.inr ⟨hfirst, he⟩)⟩
    · simp only [Encounter.WellFormed, not_forall, not_not] at hfirst
      obtain ⟨e, he⟩ := hfirst
      exact ⟨e, firstMalformed_cons.mpr (.inl he)⟩

/-! ## 3. Outcomes and what was met -/

/-- A step that goes along with a part of a walk fails with the error of the first malformed thing
met there. -/
def Reports {α : Type} (met : List Encounter) (step : Except DecodeError α) : Prop :=
  ∀ e, step = .error e ↔ FirstMalformed met e

theorem reports_ok {α : Type} (a : α) : Reports [] (.ok a) := by
  intro e
  constructor
  · intro h
    cases h
  · exact fun h => absurd h (not_firstMalformed_nil e)

theorem reports_singleton {α : Type} {met : Encounter} {step : Except DecodeError α}
    (h : ∀ e, step = .error e ↔ met.Malformed e) : Reports [met] step := by
  intro e
  rw [firstMalformed_cons, h e]
  have := not_firstMalformed_nil e
  tauto

theorem Reports.wellFormed {α : Type} {met : List Encounter} {step : Except DecodeError α}
    (h : Reports met step) : (∃ a, step = .ok a) ↔ ∀ m ∈ met, m.WellFormed := by
  constructor
  · rintro ⟨a, rfl⟩
    by_contra hmet
    obtain ⟨e, he⟩ := exists_firstMalformed hmet
    cases (h e).mpr he
  · intro hmet
    cases hstep : step with
    | ok a => exact ⟨a, rfl⟩
    | error e =>
      obtain ⟨before, first, after, rfl, -, hfirst⟩ := (h e).mp hstep
      exact absurd hfirst (hmet first (by simp) e)

theorem Reports.bind {α β : Type} {met later : List Encounter} {step : Except DecodeError α}
    {next : α → Except DecodeError β} (hstep : Reports met step)
    (hnext : ∀ a, step = .ok a → Reports later (next a)) :
    Reports (met ++ later) (step >>= next) := by
  intro e
  rw [firstMalformed_append, ← hstep e, ← hstep.wellFormed]
  cases h : step with
  | error e' =>
    constructor
    · intro he
      cases he
      exact .inl rfl
    · rintro (he | ⟨⟨a, ha⟩, -⟩)
      · cases he
        rfl
      · cases ha
  | ok a =>
    constructor
    · exact fun he => .inr ⟨⟨a, rfl⟩, (hnext a h e).mp he⟩
    · rintro (he | ⟨-, he⟩)
      · cases he
      · exact (hnext a h e).mpr he

/-- A last step that cannot fail meets nothing. -/
theorem Reports.map {α β : Type} {met : List Encounter} {step : Except DecodeError α} (f : α → β)
    (h : Reports met step) : Reports met (step >>= fun a => pure (f a)) := by
  rw [← List.append_nil met]
  exact h.bind fun a _ => reports_ok (f a)

theorem Reports.skip {α : Type} {met : Encounter} {later : List Encounter}
    {step : Except DecodeError α} (hmet : met.WellFormed) (h : Reports later step) :
    Reports (met :: later) step := by
  intro e
  rw [h e, firstMalformed_cons]
  have := hmet e
  tauto

/-! ## 4. Leaves -/

/-- The members of an object give a time: a number of seconds and the text of an offset. -/
inductive GivesTime (members : List (String × Json)) (t : Time) : Prop
  | mk {epoch : Double} {zone : String} {offset millis : Int}
    (hepoch : (Members.get? "epoch_time" members).bind Json.asDouble? = some epoch)
    (hzone : (Members.get? "timezone" members).bind Json.asString? = some zone)
    (hoffset : Time.Zone.offset? zone.toList = some offset)
    (hmillis : millis? epoch = some millis) (htime : Time.ofMillis? millis offset = some t)

/-- The members of an object give a byte string. -/
inductive GivesBytes (members : List (String × Json)) (bytes : List UInt8) : Prop
  | mk {data : String} (hdata : (Members.get? "data" members).bind Json.asString? = some data)
    (hbytes : Base64.decode data = .ok bytes)

variable {members : List (String × Json)} {e : DecodeError}

-- The milliseconds are taken apart before the rest: reducing around them would compute them.
theorem time_of_malformed (h : (Encounter.time members).Malformed e) : time members = .error e := by
  cases h with
  | noEpoch h => simp only [time, h]; rfl
  | noZone hepoch h => simp only [time, hepoch, h]; rfl
  | badZone hepoch hzone h => simp only [time, hepoch, hzone, h]; rfl
  | @outOfRange _ epoch _ offset hepoch hzone hoffset h =>
    cases hmillis : millis? epoch with
    | none =>
      simp only [time, hepoch, hzone, hmillis, Option.bind_none]
      simp only [hoffset]
      rfl
    | some millis =>
      simp only [time, hepoch, hzone, hmillis, Option.bind_some]
      simp only [hoffset, h millis hmillis]
      rfl

theorem time_of_gives {t : Time} (h : GivesTime members t) : time members = .ok (.time t) := by
  obtain ⟨hepoch, hzone, hoffset, hmillis, ht⟩ := h
  simp only [time, hepoch, hzone, hmillis, Option.bind_some]
  simp only [hoffset, ht]
  rfl

theorem malformed_or_givesTime (members : List (String × Json)) :
    (∃ e, (Encounter.time members).Malformed e) ∨ ∃ t, GivesTime members t := by
  cases hepoch : (Members.get? "epoch_time" members).bind Json.asDouble? with
  | none => exact .inl ⟨_, .noEpoch hepoch⟩
  | some epoch =>
    cases hzone : (Members.get? "timezone" members).bind Json.asString? with
    | none => exact .inl ⟨_, .noZone hepoch hzone⟩
    | some zone =>
      cases hoffset : Time.Zone.offset? zone.toList with
      | none => exact .inl ⟨_, .badZone hepoch hzone hoffset⟩
      | some offset =>
        cases ht : (millis? epoch).bind fun millis => Time.ofMillis? millis offset with
        | none => exact .inl ⟨_, .outOfRange hepoch hzone hoffset (Option.bind_eq_none_iff.mp ht)⟩
        | some t =>
          obtain ⟨millis, hmillis, ht⟩ := Option.bind_eq_some_iff.mp ht
          exact .inr ⟨t, hepoch, hzone, hoffset, hmillis, ht⟩

theorem binary_of_malformed (h : (Encounter.binary members).Malformed e) :
    binary members = .error e := by
  cases h with
  | noData h => simp only [binary, h]; rfl
  | badData hdata h => simp only [binary, hdata, h]; rfl

theorem binary_of_gives {bytes : List UInt8} (h : GivesBytes members bytes) :
    binary members = .ok (.binary bytes) := by
  obtain ⟨hdata, hbytes⟩ := h
  simp only [binary, hdata, hbytes]
  rfl

theorem malformed_or_givesBytes (members : List (String × Json)) :
    (∃ e, (Encounter.binary members).Malformed e) ∨ ∃ bytes, GivesBytes members bytes := by
  cases hdata : (Members.get? "data" members).bind Json.asString? with
  | none => exact .inl ⟨_, .noData hdata⟩
  | some data =>
    cases hbytes : Base64.decode data with
    | error fault => exact .inl ⟨_, .badData hdata hbytes⟩
    | ok bytes => exact .inr ⟨bytes, hdata, hbytes⟩

-- A step that fails on what is malformed, and only on that, fails with the error reported of it.
theorem reports_leaf {α : Type} {met : Encounter} {step : Except DecodeError α}
    (hbad : ∀ e, met.Malformed e → step = .error e)
    (hgood : (∃ e, met.Malformed e) ∨ ∃ a, step = .ok a) : Reports [met] step := by
  refine reports_singleton fun e => ⟨fun h => ?_, hbad e⟩
  obtain ⟨e', he'⟩ | ⟨a, ha⟩ := hgood
  · rw [hbad e' he'] at h
    cases h
    exact he'
  · rw [ha] at h
    cases h

theorem reports_time (members : List (String × Json)) : Reports [.time members] (time members) :=
  reports_leaf (fun _ => time_of_malformed)
    ((malformed_or_givesTime members).imp_right fun ⟨_, h⟩ => ⟨_, time_of_gives h⟩)

theorem reports_binary (members : List (String × Json)) :
    Reports [.binary members] (binary members) :=
  reports_leaf (fun _ => binary_of_malformed)
    ((malformed_or_givesBytes members).imp_right fun ⟨_, h⟩ => ⟨_, binary_of_gives h⟩)

/-! ## 5. Normalization reports the first malformed thing -/

theorem groups_eq (members : List (String × Json)) :
    groups options members =
      match listed? members with
      | some items => entries options items >>= fun data => pure (.array data)
      | none => .error (.missingMember Tag.group.name "data") := by
  induction members with
  | nil => rfl
  | cons member members ih =>
    obtain ⟨key, value⟩ := member
    rw [groups, listed?, Members.get?_cons]
    by_cases hkey : key = "data"
    · rw [if_pos hkey, if_pos hkey]
      cases value <;> rfl
    · rw [if_neg hkey, if_neg hkey]
      exact ih

theorem normalizeItems_eq (items : List Json) :
    normalizeItems options items = items.mapM (normalize options) := by
  induction items with
  | nil => rfl
  | cons item items ih => rw [normalizeItems, List.mapM_cons, ih]

theorem normalizeMembers_eq (members : List (String × Json)) :
    normalizeMembers options members = members.mapM fun member =>
      normalize options member.2 >>= fun datum => pure (member.1, datum) := by
  induction members with
  | nil => rfl
  | cons member members ih =>
    rw [normalizeMembers, List.mapM_cons, ih, bind_assoc]
    rfl

theorem entries_eq (items : List Json) :
    entries options items = items.mapM (entryOf options) := by
  induction items with
  | nil => rfl
  | cons item items ih => rw [entries, List.mapM_cons, ih]

theorem Reports.mapM {α β : Type} {met : α → List Encounter} {step : α → Except DecodeError β}
    {xs : List α} (h : ∀ x ∈ xs, Reports (met x) (step x)) :
    Reports (xs.flatMap met) (xs.mapM step) := by
  induction xs with
  | nil => exact reports_ok []
  | cons x xs ih =>
    rw [List.forall_mem_cons] at h
    rw [List.mapM_cons]
    exact h.1.bind fun y _ => (ih h.2).map (y :: ·)

theorem entryOf_of_not_pair {item : Json}
    (h : ∀ group reduction, item ≠ .array [group, reduction]) :
    entryOf options item = .error .groupNotPair := by
  rw [entryOf]
  exact h

theorem walkEntry_of_not_pair {item : Json}
    (h : ∀ group reduction, item ≠ .array [group, reduction]) :
    walkEntry options item = [.entry item] := by
  rw [walkEntry]
  exact h

theorem reports_entry {item : Json}
    (h : ∀ group reduction, item = .array [group, reduction] →
      Reports (walk options group) (normalize options group) ∧
        Reports (walk options reduction) (normalize options reduction)) :
    Reports (walkEntry options item) (entryOf options item) := by
  by_cases hpair : ∃ group reduction, item = .array [group, reduction]
  · obtain ⟨group, reduction, rfl⟩ := hpair
    obtain ⟨hgroup, hreduction⟩ := h group reduction rfl
    rw [walkEntry]
    refine Reports.skip ?_ (hgroup.bind fun datum _ => hreduction.map (entry datum))
    intro e he
    cases he with
    | noPair hno => exact hno group reduction rfl
  · have hno : ∀ group reduction, item ≠ .array [group, reduction] :=
      fun group reduction heq => hpair ⟨group, reduction, heq⟩
    rw [walkEntry_of_not_pair hno, entryOf_of_not_pair hno]
    refine reports_singleton fun e => ⟨fun he => ?_, fun he => ?_⟩
    · cases he
      exact .noPair hno
    · cases he
      rfl

theorem reports_groups (members : List (String × Json))
    (h : ∀ group reduction, Json.array [group, reduction] ∈ (listed? members).getD [] →
      Reports (walk options group) (normalize options group) ∧
        Reports (walk options reduction) (normalize options reduction)) :
    Reports (.group members :: ((listed? members).getD []).flatMap (walkEntry options))
      (groups options members) := by
  rw [groups_eq]
  cases hlist : listed? members with
  | none =>
    refine reports_singleton fun e => ⟨fun he => ?_, fun he => ?_⟩
    · cases he
      exact .noList (listed?_eq_none_iff.mp hlist)
    · cases he
      rfl
  | some items =>
    rw [hlist] at h
    have hitems : Reports (items.flatMap (walkEntry options)) (entries options items) := by
      rw [entries_eq]
      refine Reports.mapM fun item hitem => reports_entry ?_
      rintro group reduction rfl
      exact h group reduction hitem
    refine Reports.skip ?_ (hitems.map Datum.array)
    intro e he
    cases he with
    | noList hno => rw [listed?_eq_none_iff.mpr hno] at hlist; cases hlist

theorem reports_normalize (options : Options) (v : Json) :
    Reports (walk options v) (normalize options v) := by
  induction v using walk_induction options with
  | null | bool | number | string => rw [walk]; exact reports_ok _
  | array items ih =>
    rw [walk, normalize, normalizeItems_eq]
    exact (Reports.mapM ih).map Datum.array
  | time members htag =>
    simp only [walk, normalize, htag]
    exact reports_time members
  | binary members htag =>
    simp only [walk, normalize, htag]
    exact reports_binary members
  | group members htag ih =>
    rw [walk_group htag]
    simp only [normalize, htag]
    exact reports_groups members ih
  | object members htag ih =>
    simp only [walk, normalize, htag, normalizeMembers_eq]
    exact (Reports.mapM fun member hmember =>
      (ih member hmember).map (member.1, ·)).map Datum.object

/-! ## 6. What a value becomes -/

mutual

/-- What a JSON value becomes. -/
inductive Becomes (options : Options) : Json → Datum → Prop
  | null : Becomes options .null .null
  | bool (b : Bool) : Becomes options (.bool b) (.bool b)
  | number (n : Number) : Becomes options (.number n) (.number n)
  | string (s : String) : Becomes options (.string s) (.string s)
  | array {items : List Json} {data : List Datum} (h : List.Forall₂ (Becomes options) items data) :
    Becomes options (.array items) (.array data)
  | object {members : List (String × Json)} {data : List (String × Datum)}
    (htag : nativeTag? options members = none)
    (h : List.Forall₂ (MemberBecomes options) members data) :
    Becomes options (.object members) (.object data)
  | time {members : List (String × Json)} {t : Time}
    (htag : nativeTag? options members = some .time) (h : GivesTime members t) :
    Becomes options (.object members) (.time t)
  | binary {members : List (String × Json)} {bytes : List UInt8}
    (htag : nativeTag? options members = some .binary) (h : GivesBytes members bytes) :
    Becomes options (.object members) (.binary bytes)
  | group {members : List (String × Json)} {items : List Json} {data : List Datum}
    (htag : nativeTag? options members = some .group)
    (hitems : Members.get? "data" members = some (.array items))
    (h : List.Forall₂ (EntryBecomes options) items data) :
    Becomes options (.object members) (.array data)

/-- What a member becomes: its key stays. -/
inductive MemberBecomes (options : Options) : String × Json → String × Datum → Prop
  | mk {key : String} {value : Json} {datum : Datum} (h : Becomes options value datum) :
    MemberBecomes options (key, value) (key, datum)

/-- What a listed entry becomes: an object of its group and its reduction. -/
inductive EntryBecomes (options : Options) : Json → Datum → Prop
  | mk {group reduction : Json} {groupDatum reductionDatum : Datum}
    (hgroup : Becomes options group groupDatum)
    (hreduction : Becomes options reduction reductionDatum) :
    EntryBecomes options (.array [group, reduction])
      (.object [("group", groupDatum), ("reduction", reductionDatum)])

end

theorem entryOf_eq_ok {item : Json} {datum : Datum} (h : entryOf options item = .ok datum) :
    ∃ group reduction groupDatum reductionDatum, item = .array [group, reduction] ∧
      datum = entry groupDatum reductionDatum ∧ normalize options group = .ok groupDatum ∧
      normalize options reduction = .ok reductionDatum := by
  by_cases hpair : ∃ group reduction, item = .array [group, reduction]
  · obtain ⟨group, reduction, rfl⟩ := hpair
    obtain ⟨g, hg, h⟩ := bind_eq_ok_iff.mp h
    obtain ⟨r, hr, h⟩ := bind_eq_ok_iff.mp h
    cases h
    exact ⟨group, reduction, g, r, rfl, rfl, hg, hr⟩
  · rw [entryOf_of_not_pair fun group reduction heq => hpair ⟨group, reduction, heq⟩] at h
    cases h

theorem time_eq_ok {d : Datum} (h : time members = .ok d) :
    ∃ t, d = .time t ∧ GivesTime members t := by
  obtain ⟨e, he⟩ | ⟨t, ht⟩ := malformed_or_givesTime members
  · rw [time_of_malformed he] at h
    cases h
  · rw [time_of_gives ht] at h
    cases h
    exact ⟨t, rfl, ht⟩

theorem binary_eq_ok {d : Datum} (h : binary members = .ok d) :
    ∃ bytes, d = .binary bytes ∧ GivesBytes members bytes := by
  obtain ⟨e, he⟩ | ⟨bytes, hbytes⟩ := malformed_or_givesBytes members
  · rw [binary_of_malformed he] at h
    cases h
  · rw [binary_of_gives hbytes] at h
    cases h
    exact ⟨bytes, rfl, hbytes⟩

theorem groups_eq_ok {d : Datum} (h : groups options members = .ok d) :
    ∃ items data, listed? members = some items ∧ d = .array data ∧
      items.mapM (entryOf options) = .ok data := by
  rw [groups_eq] at h
  cases hlist : listed? members with
  | none => rw [hlist] at h; cases h
  | some items =>
    rw [hlist] at h
    obtain ⟨data, hdata, h⟩ := bind_eq_ok_iff.mp h
    cases h
    rw [entries_eq] at hdata
    exact ⟨items, data, rfl, rfl, hdata⟩

theorem listed?_eq_some_iff {items : List Json} :
    listed? members = some items ↔ Members.get? "data" members = some (.array items) := by
  unfold listed?
  split
  next items' hdata => simp [hdata]
  next hdata => exact ⟨(fun h => by cases h), fun h => absurd h (hdata items)⟩

theorem becomes_of_normalize (options : Options) (v : Json) :
    ∀ d, normalize options v = .ok d → Becomes options v d := by
  induction v using walk_induction options with
  | null | bool | number | string =>
    intro d h
    cases h
    constructor
  | array items ih =>
    intro d h
    rw [normalize, normalizeItems_eq] at h
    obtain ⟨data, hdata, h⟩ := bind_eq_ok_iff.mp h
    cases h
    exact .array (forall₂_of_mapM hdata ih)
  | time members htag =>
    intro d h
    simp only [normalize, htag] at h
    obtain ⟨t, rfl, ht⟩ := time_eq_ok h
    exact .time htag ht
  | binary members htag =>
    intro d h
    simp only [normalize, htag] at h
    obtain ⟨bytes, rfl, hbytes⟩ := binary_eq_ok h
    exact .binary htag hbytes
  | group members htag ih =>
    intro d h
    simp only [normalize, htag] at h
    obtain ⟨items, data, hlist, rfl, hentries⟩ := groups_eq_ok h
    refine .group htag (listed?_eq_some_iff.mp hlist) (forall₂_of_mapM hentries ?_)
    intro item hitem datum hdatum
    obtain ⟨group, reduction, g, r, rfl, rfl, hg, hr⟩ := entryOf_eq_ok hdatum
    rw [hlist] at ih
    obtain ⟨hgroup, hreduction⟩ := ih group reduction hitem
    exact .mk (hgroup g hg) (hreduction r hr)
  | object members htag ih =>
    intro d h
    simp only [normalize, htag, normalizeMembers_eq] at h
    obtain ⟨data, hdata, h⟩ := bind_eq_ok_iff.mp h
    cases h
    refine .object htag (forall₂_of_mapM hdata ?_)
    rintro ⟨key, value⟩ hmember member h
    obtain ⟨datum, hdatum, h⟩ := bind_eq_ok_iff.mp h
    cases h
    exact .mk (ih _ hmember datum hdatum)

/-! ## 7. No natively presented tag is left -/

/-- No object in a row value has a text for a tag that names a natively presented type. -/
def Untagged (options : Options) (d : Datum) : Prop :=
  ∀ members, Datum.Part (.object members) d → ∀ name tag,
    Members.get? tagKey members = some (.string name) → Tag.ofName? name = some tag →
      tag.presentation options ≠ .native

theorem untagged_array {data : List Datum} (h : ∀ datum ∈ data, Untagged options datum) :
    Untagged options (.array data) := by
  intro members hpart
  cases hpart with
  | item hmem hpart => exact h _ hmem members hpart

theorem untagged_object {data : List (String × Datum)}
    (hself : ∀ name tag, Members.get? tagKey data = some (.string name) →
      Tag.ofName? name = some tag → tag.presentation options ≠ .native)
    (h : ∀ member ∈ data, Untagged options member.2) : Untagged options (.object data) := by
  intro members hpart
  cases hpart with
  | self => exact hself
  | member hmem hpart => exact h _ hmem members hpart

-- A group object has its two members only, neither of which is a tag.
theorem untagged_entry {group reduction : Datum} (hgroup : Untagged options group)
    (hreduction : Untagged options reduction) : Untagged options (entry group reduction) := by
  refine untagged_object (fun name tag h => ?_) ?_
  · simp [Members.get?, tagKey] at h
  · simp [hgroup, hreduction]

theorem tag?_of_get? {name : String} (h : Members.get? tagKey members = some (.string name)) :
    tag? members = Tag.ofName? name := by
  rw [tag?, h]
  rfl

theorem untagged_normalize (options : Options) (v : Json) :
    ∀ d, normalize options v = .ok d → Untagged options d := by
  induction v using walk_induction options with
  | null | bool | number | string =>
    intro d h members hpart
    cases h
    cases hpart
  | array items ih =>
    intro d h
    rw [normalize, normalizeItems_eq] at h
    obtain ⟨data, hdata, h⟩ := bind_eq_ok_iff.mp h
    cases h
    exact untagged_array (forall_mem_of_forall₂ (mapM_eq_ok_iff.mp hdata) ih)
  | time members htag =>
    intro d h members hpart
    simp only [normalize, htag] at h
    obtain ⟨t, rfl, -⟩ := time_eq_ok h
    cases hpart
  | binary members htag =>
    intro d h members hpart
    simp only [normalize, htag] at h
    obtain ⟨bytes, rfl, -⟩ := binary_eq_ok h
    cases hpart
  | group members htag ih =>
    intro d h
    simp only [normalize, htag] at h
    obtain ⟨items, data, hlist, rfl, hentries⟩ := groups_eq_ok h
    refine untagged_array (forall_mem_of_forall₂ (mapM_eq_ok_iff.mp hentries) ?_)
    intro item hitem datum hdatum
    obtain ⟨group, reduction, g, r, rfl, rfl, hg, hr⟩ := entryOf_eq_ok hdatum
    rw [hlist] at ih
    obtain ⟨hgroup, hreduction⟩ := ih group reduction hitem
    exact untagged_entry (hgroup g hg) (hreduction r hr)
  | object members htag ih =>
    intro d h
    simp only [normalize, htag, normalizeMembers_eq] at h
    obtain ⟨data, hdata, h⟩ := bind_eq_ok_iff.mp h
    cases h
    have hmembers : List.Forall₂ (fun member datum => datum.1 = member.1 ∧
        normalize options member.2 = .ok datum.2) members data := by
      refine (mapM_eq_ok_iff.mp hdata).imp fun member datum h => ?_
      obtain ⟨value, hvalue, h⟩ := bind_eq_ok_iff.mp h
      cases h
      exact ⟨rfl, hvalue⟩
    refine untagged_object (fun name tag hget htagName => ?_)
      (forall_mem_of_forall₂ hmembers fun member hmember datum h => ih member hmember _ h.2)
    -- The tag was a text already, so that its type is not presented natively.
    obtain ⟨value, hvalue, hnormal⟩ := Members.get?_of_forall₂
      (R := fun value datum => normalize options value = .ok datum) hmembers hget
    cases becomes_of_normalize options value _ hnormal
    rw [nativeTag?, tag?_of_get? hvalue, htagName, Option.filter_eq_none_iff] at htag
    simpa using htag

/-- Normalization fails exactly if a walk in document order meets something malformed, with the
error of the first such thing; it succeeds exactly if all that is met is well-formed.  When it
succeeds, the value has become what the rules say, item for item and member for member, with an
object of a group and a reduction for each listed entry; and no natively presented tag is left. -/
theorem normalize_reports_first (options : Options) (v : Json) :
    (∀ e, normalize options v = .error e ↔ FirstMalformed (walk options v) e) ∧
    ((∃ d, normalize options v = .ok d) ↔ ∀ met ∈ walk options v, met.WellFormed) ∧
    ∀ d, normalize options v = .ok d → Becomes options v d ∧ Untagged options d :=
  ⟨reports_normalize options v, (reports_normalize options v).wellFormed,
    fun d h => ⟨becomes_of_normalize options v d h, untagged_normalize options v d h⟩⟩

/-- A byte string in a group is converted while a bare time tag is kept; with times presented
natively, that tag is what is reported. -/
theorem normalize_reports_first_nested :
    let blob := Json.object [("$reql_type$", .string "BINARY"), ("data", .string "AQI=")]
    let grouped := Json.object
      [("$reql_type$", .string "GROUPED_DATA"), ("data", .array [.array [.string "a", blob]])]
    let bare := Json.object [("$reql_type$", .string "TIME")]
    let kept := Datum.array [.array [entry (.string "a") (.binary [1, 2])],
      .object [("$reql_type$", .string "TIME")]]
    normalize { time := .raw } (.array [grouped, bare]) = .ok kept ∧
      Untagged { time := .raw } kept ∧
      FirstMalformed (walk {} (.array [grouped, bare])) (.missingMember "TIME" "epoch_time") := by
  intro blob grouped bare kept
  have hkept : normalize { time := .raw } (.array [grouped, bare]) = .ok kept := by rfl
  have hbare : normalize {} (.array [grouped, bare]) =
      .error (.missingMember "TIME" "epoch_time") := by
    rfl
  exact ⟨hkept, ((normalize_reports_first _ _).2.2 _ hkept).2,
    ((normalize_reports_first _ _).1 _).mp hbare⟩

end RowStream.Pseudotype
