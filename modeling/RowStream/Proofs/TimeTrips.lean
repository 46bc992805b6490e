import RowStream.Proofs.Filling
import RowStream.Proofs.Normalizing
import RowStream.Proofs.TimeText

/-!
# Times through JSON

A time that a tagged object stands for is written as text in the JSON form of a row.  Whatever reads
times from that form, by themselves or in options, lists, maps and records, gets the times that it
would have got from the row itself.
-/

namespace RowStream

open Text

/-! ## 1. Times of tagged objects -/

namespace Time

theorem Zone.clock?_bounds {s : List Char} {offset : Int} (h : Zone.clock? s = some offset) :
    offset % 60 = 0 ∧ 0 ≤ offset ∧ offset < 86400 := by
  simp only [Zone.clock?, Option.bind_eq_bind, Option.bind_eq_some_iff] at h
  obtain ⟨-, -, hours, -, minutes, -, h⟩ := h
  split at h
  next hclock =>
    cases h
    omega
  next => cases h

theorem Zone.offset?_bounds {s : List Char} {offset : Int} (h : Zone.offset? s = some offset) :
    offset % 60 = 0 ∧ -86400 < offset ∧ offset < 86400 := by
  unfold Zone.offset? at h
  split at h
  next =>
    cases h
    decide
  next =>
    have := Zone.clock?_bounds h
    omega
  next =>
    obtain ⟨clock, hclock, rfl⟩ := Option.map_eq_some_iff.mp h
    have := Zone.clock?_bounds hclock
    omega
  next => cases h

theorem ofMillis?_bounds {millis offset : Int} {t : Time} (h : ofMillis? millis offset = some t) :
    t.nanos % 1000000 = 0 ∧ t.nanos < 1000000000 ∧ t.offset = offset := by
  unfold ofMillis? at h
  dsimp only at h
  split at h
  next =>
    cases h
    dsimp only
    omega
  next => cases h

/-- A time that a tagged object stands for, of the first ten thousand years as its clock shows
it. -/
def Received (t : Time) : Prop :=
  (∃ options v, Pseudotype.normalize options v = .ok (.time t)) ∧
    0 ≤ t.date.year ∧ t.date.year ≤ 9999

theorem Received.plain {t : Time} (h : t.Received) : t.Plain := by
  obtain ⟨⟨options, v, hnormal⟩, hyear⟩ := h
  cases Pseudotype.becomes_of_normalize options v _ hnormal with
  | time _ hgives =>
    obtain ⟨-, -, hoffset, -, ht⟩ := hgives
    obtain ⟨hmillis, hnanos, hzone⟩ := ofMillis?_bounds ht
    obtain ⟨hminutes, hday⟩ := Zone.offset?_bounds hoffset
    rw [← hzone] at hminutes hday
    exact ⟨hmillis, hnanos, hminutes, hday, hyear⟩

/-! ## 2. The format of their texts -/

/-- The texts of the internet's profile of ISO 8601 whose seconds are whole or have three digits of
fraction: a date that the calendar has, a time of day, and an offset of less than a day. -/
inductive IsRfc3339 : List Char → Prop
  | mk {year month day hour minute second hours minutes : Nat} {fraction : List Char} {sign : Char}
    (hyear : year ≤ 9999) (hmonth : 1 ≤ month ∧ month ≤ 12)
    (hday : 1 ≤ day ∧ day ≤ Date.monthLength year month)
    (hclock : hour ≤ 23 ∧ minute ≤ 59 ∧ second ≤ 59)
    (hfraction : fraction = [] ∨ ∃ millis, millis ≤ 999 ∧ fraction = '.' :: fixedDigits 3 millis)
    (hoffset : (sign = '+' ∨ sign = '-') ∧ hours ≤ 23 ∧ minutes ≤ 59) :
    IsRfc3339 (fixedDigits 4 year ++ '-' :: (fixedDigits 2 month ++
      '-' :: (fixedDigits 2 day ++ 'T' :: (fixedDigits 2 hour ++ ':' :: (fixedDigits 2 minute ++
        ':' :: (fixedDigits 2 second ++ (fraction ++
          sign :: (fixedDigits 2 hours ++ ':' :: fixedDigits 2 minutes))))))))

theorem Plain.isRfc3339 {t : Time} (h : t.Plain) : IsRfc3339 t.chars := by
  obtain ⟨hmonth, hmonth', hday, hday'⟩ := Date.ofDays_valid (t.localSeconds / 86400)
  have hsecond := secondOfDay_lt t
  have hyear := h.year
  have hnanos := h.subsecond
  have hoffset := h.day
  have hyearNat : (t.date.year.toNat : Int) = t.date.year := by omega
  have hmonthLength : t.date.day ≤ Date.monthLength t.date.year.toNat t.date.month := by
    rw [hyearNat]
    exact hday'
  rw [chars_eq h, offsetChars]
  refine .mk (by omega) ⟨hmonth, hmonth'⟩ ⟨hday, hmonthLength⟩ (by omega) ?_
    ⟨?_, by omega, by omega⟩
  · unfold fractionChars
    by_cases hzero : t.nanos = 0
    · exact .inl (if_pos hzero)
    · rw [if_neg hzero, if_pos h.millis]
      exact .inr ⟨t.nanos / 1000000, by omega, rfl⟩
  · by_cases hneg : t.offset < 0
    · exact .inr (if_pos hneg)
    · exact .inl (if_neg hneg)

theorem Received.readTime_toJson {t : Time} (h : t.Received) :
    (Datum.time t).toJson.readTime = .ok t := by
  rw [Datum.toJson, Json.readTime, ofText_text h.plain]
  rfl

end Time

/-! ## 3. Destinations for times -/

namespace Target

/-- A row of times is what a destination for times is to hold: a time stands for itself, or in
universal time for its instant; a null stands for nothing; lists and maps hold what stands in
them. -/
def Holds : (T : Target) → Datum → T.Slot → Prop
  | time, d, x => d = .time x ∧ x.Received
  | universalTime, d, x => ∃ t : Time, d = .time t ∧ t.Received ∧ x = t.toUniversal
  | option T, d, x => (d = .null ∧ x = none) ∨ (d ≠ .null ∧ ∃ y, x = some y ∧ T.Holds d y)
  | list T, d, x => ∃ items, d = .array items ∧ List.Forall₂ T.Holds items x
  | map T, d, x | unorderedMap T, d, x => ∃ members, d = .object members ∧
      List.Forall₂ (fun member y => y.1 = member.1 ∧ T.Holds member.2 y.2) members x
  | json T, d, x => T.Holds d x
  | _, _, _ => False

end Target

namespace Target

theorem read_of_holds (T : Target) {d : Datum} {x : T.Slot} (h : T.Holds d x) :
    T.read d.toJson = .ok x := by
  induction T generalizing d with
  | time =>
    obtain ⟨rfl, ht⟩ := h
    exact ht.readTime_toJson
  | universalTime =>
    obtain ⟨t, rfl, ht, rfl⟩ := h
    rw [read, ht.readTime_toJson]
    rfl
  | option T ih =>
    rcases h with ⟨rfl, rfl⟩ | ⟨hd, y, rfl, hy⟩
    · rfl
    · exact (Json.readOption_eq_ok_iff (Datum.toJson_ne_null hd)).mpr ⟨y, ih hy, rfl⟩
  | list T ih =>
    obtain ⟨items, rfl, hitems⟩ := h
    exact Json.readList_toJson_eq_ok_iff.mpr (hitems.imp fun _ _ hitem => ih hitem)
  | map T ih | unorderedMap T ih =>
    obtain ⟨members, rfl, hmembers⟩ := h
    exact Json.readMap_toJson_eq_ok_iff.mpr
      (hmembers.imp fun _ _ hmember => ⟨hmember.1, ih hmember.2⟩)
  | json T ih => exact ih h
  | _ => cases h

theorem decode_json_of_holds {T : Target} {d : Datum} {x : T.Slot} (h : T.Holds d x)
    (old : T.Slot) :
    (json T).decode old d = .done x := by
  rw [decode, Filled.json, T.read_of_holds h]
  rfl

theorem decode_of_holds (T : Target) {d : Datum} {x : T.Slot} (h : T.Holds d x) (old : T.Slot) :
    T.decode old d = .done x := by
  induction T generalizing d with
  | time =>
    obtain ⟨rfl, -⟩ := h
    rfl
  | universalTime =>
    obtain ⟨t, rfl, -, rfl⟩ := h
    rfl
  | option T ih =>
    rcases h with ⟨rfl, rfl⟩ | ⟨hd, y, rfl, hy⟩
    · rfl
    · have hcontent := ih hy (old.getD T.blank)
      cases d with
      | null => exact absurd rfl hd
      | _ =>
        rw [decode, Filled.option, hcontent]
        exact hd
  | list T ih =>
    obtain ⟨items, rfl, hitems⟩ := h
    exact Filled.all_eq_done_iff.mpr (hitems.imp fun _ _ hitem => ih hitem T.blank)
  | map T ih =>
    obtain ⟨members, rfl, hmembers⟩ := h
    exact Filled.allMembers_eq_done_iff.mpr
      (hmembers.imp fun _ _ hmember => ⟨hmember.1, ih hmember.2 T.blank⟩)
  | unorderedMap T ih =>
    obtain ⟨members, rfl, hmembers⟩ := h
    have hmap : Filled.map T.blank T.decode [] (.object members) = .done x :=
      Filled.allMembers_eq_done_iff.mpr
        (hmembers.imp fun _ _ hmember => ⟨hmember.1, ih hmember.2 T.blank⟩)
    rw [decode, Filled.unorderedMap, hmap]
  | json T ih => exact decode_json_of_holds (T := T) h old
  | _ => cases h

end Target

/-! ## 4. Records -/

namespace Json

/-- Adds members one by one. -/
def SeenUser.addAll (seen : SeenUser) (members : List (String × Json)) : Except Fault SeenUser :=
  members.foldlM (fun seen member => seen.add member.1 member.2) seen

/-- The user of the members met in an object. -/
def SeenUser.user (seen : SeenUser) : Except Fault User := do
  let some id := seen.id | throw (.missingField "id")
  let some name := seen.name | throw (.missingField "name")
  return ⟨id, name, seen.created.getD none⟩

theorem readUser_object (members : List (String × Json)) :
    (object members).readUser = SeenUser.addAll {} members >>= SeenUser.user := rfl

namespace SeenUser

variable {before after : List (String × Json)}

theorem addAll_cons (seen : SeenUser) (member : String × Json) (members : List (String × Json)) :
    seen.addAll (member :: members) =
      seen.add member.1 member.2 >>= fun met => met.addAll members := by
  rw [addAll, List.foldlM_cons]
  rfl

theorem addAll_append (seen : SeenUser) (before after : List (String × Json)) :
    seen.addAll (before ++ after) = seen.addAll before >>= fun met => met.addAll after := by
  rw [addAll, List.foldlM_append]
  rfl

-- Other members are added alike whatever time of creation was met.
theorem add_created {name : String} (hname : name ≠ "created") (seen : SeenUser) (v : Json)
    (created : Option (Option Time)) : { seen with created := created }.add name v =
      (seen.add name v).map fun met => { met with created := created } := by
  unfold add
  split
  · cases v.readInt .u64 <;> rfl
  · split
    · cases v.readString <;> rfl
    · rfl

theorem addAll_created {members : List (String × Json)}
    (h : ∀ member ∈ members, member.1 ≠ "created") (seen : SeenUser)
    (created : Option (Option Time)) : { seen with created := created }.addAll members =
      (seen.addAll members).map fun met => { met with created := created } := by
  induction members generalizing seen with
  | nil => rfl
  | cons member members ih =>
    rw [List.forall_mem_cons] at h
    rw [addAll_cons, addAll_cons, add_created h.1]
    cases seen.add member.1 member.2 with
    | error fault => rfl
    | ok met => exact ih h.2 met

theorem addAll_insert_created (h : ∀ member ∈ after, member.1 ≠ "created") {v : Json}
    {created : Option Time} (hv : readOption readTime v = .ok created) (seen : SeenUser) :
    seen.addAll (before ++ ("created", v) :: after) =
      (seen.addAll (before ++ after)).map fun met => { met with created := some created } := by
  rw [addAll_append, addAll_append]
  cases seen.addAll before with
  | error fault => rfl
  | ok met =>
    have hadd : met.add "created" v = .ok { met with created := some created } := by
      rw [add, if_neg (by decide), if_neg (by decide), if_pos rfl, hv]
      rfl
    refine (addAll_cons met _ after).trans ?_
    rw [hadd]
    exact addAll_created h met (some created)

end SeenUser

variable {before after : List (String × Json)}

/-- The time of creation is read off its member alone, wherever it stands, and the rest of a user
does not depend on it. -/
theorem readUser_created (h : ∀ member ∈ after, member.1 ≠ "created") {v : Json}
    {created : Option Time} (hv : readOption readTime v = .ok created) :
    (object (before ++ ("created", v) :: after)).readUser =
      (object (before ++ after)).readUser.map fun user => { user with created := created } := by
  rw [readUser_object, readUser_object, SeenUser.addAll_insert_created h hv]
  cases SeenUser.addAll {} (before ++ after) with
  | error fault => rfl
  | ok met =>
    obtain ⟨id, name, _⟩ := met
    cases id with
    | none => rfl
    | some id => cases name <;> rfl

end Json

namespace Target

theorem decode_user_eq_done_iff {d : Datum} {found : User} (old : User) :
    user.decode old d = .done found ↔ d.toJson.readUser = .ok found := by
  rw [decode, Filled.json]
  cases d.toJson.readUser with
  | error fault => exact ⟨(fun h => by cases h), (fun h => by cases h)⟩
  | ok other => exact ⟨(fun h => by cases h; rfl), (fun h => by cases h; rfl)⟩

theorem decode_user_created {before after : List (String × Datum)} {t : Time} {found : User}
    (h : ∀ member ∈ before ++ after, member.1 ≠ "created") (ht : t.Received) {old : User}
    (hfound : user.decode old (.object (before ++ after)) = .done found) (new : User) :
    user.decode new (.object (before ++ ("created", .time t) :: after)) =
      .done { found with created := some t } := by
  have hafter : ∀ member ∈ after.map fun member : String × Datum => (member.1, member.2.toJson),
      member.1 ≠ "created" := by
    rw [List.forall_mem_map]
    exact fun member hmember => h member (List.mem_append_right before hmember)
  have htime := (Json.readOption_eq_ok_iff
    (Datum.toJson_ne_null (d := .time t) Datum.noConfusion)).mpr ⟨t, ht.readTime_toJson, rfl⟩
  rw [decode_user_eq_done_iff, Datum.toJson, Datum.toJsonMembers_eq, List.map_append] at hfound
  rw [decode_user_eq_done_iff, Datum.toJson, Datum.toJsonMembers_eq, List.map_append, List.map_cons]
  rw [Json.readUser_created hafter htime, hfound]
  rfl

end Target

/-! ## 5. The trip -/

/-- A time that a tagged object stands for, of the first ten thousand years as its clock shows it,
is written as a text of the internet's profile of ISO 8601.  Whatever times a destination reads from
that form of a row, by themselves, in universal time, in options, lists and maps or in the field of
a record, are the times that it is given by the row itself, instant and offset. -/
theorem times_survive_json :
    (∀ t : Time, t.Received →
      ∃ s : String, (Datum.time t).toJson = .string s ∧ Time.IsRfc3339 s.toList) ∧
    (∀ (T : Target) (d : Datum) (x : T.Slot), T.Holds d x → ∀ old,
      T.decode old d = .done x ∧ (Target.json T).decode old d = .done x) ∧
    ∀ (t : Time) (before after : List (String × Datum)), t.Received →
      (∀ member ∈ before ++ after, member.1 ≠ "created") → ∀ (old new : User) (found : User),
      Target.user.decode old (.object (before ++ after)) = .done found →
      Target.user.decode new (.object (before ++ ("created", .time t) :: after)) =
        .done { found with created := some t } := by
  refine ⟨fun t ht => ⟨t.text, rfl, ?_⟩, fun T d x h old => ?_, ?_⟩
  · rw [Time.text, String.toList_ofList]
    exact ht.plain.isRfc3339
  · exact ⟨T.decode_of_holds h old, Target.decode_json_of_holds h old⟩
  · exact fun t before after ht h _ new _ hfound => Target.decode_user_created h ht hfound new

/-- The last millisecond of a leap day, shown an hour ahead, is written on the day after and read
back from a map of optional times and from a user. -/
theorem times_survive_json_leap :
    let t : Time := ⟨-11670912001, 999000000, 3600⟩
    let row := Datum.object [("a", .time t), ("b", .null)]
    let ada := Datum.object
      [("created", .time t), ("id", .number (.natural 7)), ("name", .string "ada")]
    t.Received ∧ t.text = "1600-03-01T00:59:59.999+01:00" ∧
      (Target.json (.map (.option .time))).decode [] row = .done [("a", some t), ("b", none)] ∧
      Target.user.decode (Target.blank .user) ada = .done ⟨⟨7, by decide⟩, "ada", some t⟩ := by
  intro t row ada
  -- The number of seconds, -11670912000.001, and what a thousand times it is rounded to.
  let epoch : Double := ⟨true, 0x4205bd1fe000020c, by decide⟩
  have hmillis : Pseudotype.millis? epoch = some (-11670912000001) := by decide +kernel
  let members := [("$reql_type$", Json.string "TIME"), ("epoch_time", .number (.binary epoch)),
    ("timezone", .string "+01:00")]
  have hzone : Time.Zone.offset? "+01:00".toList = some 3600 := by decide +kernel
  have htag : Pseudotype.nativeTag? {} members = some .time := by rfl
  have ht : t.Received := by
    refine ⟨⟨{}, .object members, ?_⟩, by decide +kernel⟩
    rw [Pseudotype.normalize, htag]
    exact Pseudotype.time_of_gives ⟨rfl, rfl, hzone, hmillis, by decide +kernel⟩
  have hrow : Target.Holds (.map (.option .time)) row [("a", some t), ("b", none)] := by
    refine ⟨_, rfl, .cons ⟨rfl, .inr ⟨Datum.noConfusion, t, rfl, rfl, ht⟩⟩ (.cons ⟨rfl, ?_⟩ .nil)⟩
    exact .inl ⟨rfl, rfl⟩
  have hada : ∀ member ∈ [("id", Datum.number (.natural 7)), ("name", .string "ada")],
      member.1 ≠ "created" := by
    simp
  refine ⟨ht, by decide +kernel, (times_survive_json.2.1 _ row _ hrow []).2, ?_⟩
  exact times_survive_json.2.2 t [] _ ht hada (Target.blank .user) (Target.blank .user)
    ⟨⟨7, by decide⟩, "ada", none⟩ rfl

end RowStream
