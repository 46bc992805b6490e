import Mathlib.Data.List.Basic
import Mathlib.Data.List.Induction
import RowStream.Proofs.TimeTrips

/-!
# Texts of offsets

The offset of a tagged time is read number by number, and either number may bring a sign of its own.
Main statement: what is accepted are the texts of the grammar of `Z` and signed clock times, with
such signs and without, and the offset is the one spelled; every other text is reported.
-/

namespace RowStream

namespace Time.Zone

open Text

/-! ## 1. The grammar -/

/-- What number a run of decimal digits spells. -/
inductive Digits : List Char → Nat → Prop
  | one {d : Nat} (hd : d < 10) : Digits [Nat.digitChar d] d
  | more {s : List Char} {n d : Nat} (hs : Digits s n) (hd : d < 10) :
    Digits (s ++ [Nat.digitChar d]) (n * 10 + d)

/-- A number that may bring a sign of its own: a plus before any number, a minus before zero. -/
inductive Signed : List Char → Nat → Prop
  | plain {s : List Char} {n : Nat} (hs : Digits s n) : Signed s n
  | plus {s : List Char} {n : Nat} (hs : Digits s n) : Signed ('+' :: s) n
  | minus {s : List Char} (hs : Digits s 0) : Signed ('-' :: s) 0

/-- What offset a text spells: zero for `Z`, and otherwise a sign, hours, a colon and minutes.
`Number` is the form of the two numbers. -/
inductive Spells (Number : List Char → Nat → Prop) : List Char → Int → Prop
  | universal : Spells Number ['Z'] 0
  | ahead {h m : List Char} {hours minutes : Nat} (hh : Number h hours) (hm : Number m minutes)
    (hday : hours < 24) (hhour : minutes < 60) :
    Spells Number ('+' :: (h ++ ':' :: m)) (hours * 3600 + minutes * 60)
  | behind {h m : List Char} {hours minutes : Nat} (hh : Number h hours) (hm : Number m minutes)
    (hday : hours < 24) (hhour : minutes < 60) :
    Spells Number ('-' :: (h ++ ':' :: m)) (-(hours * 3600 + minutes * 60))

/-- A text starts with a sign. -/
def StartsSigned (s : List Char) : Prop := s.head? = some '+' ∨ s.head? = some '-'

/-- After its first character, a text has a sign right before one of two parts around a colon. -/
def SecondSign (s : List Char) : Prop :=
  ∃ c h m, s = c :: (h ++ ':' :: m) ∧ (StartsSigned h ∨ StartsSigned m)

variable {s h m : List Char} {n : Nat} {offset : Int}

theorem Spells.bounds {Number : List Char → Nat → Prop} (hs : Spells Number s offset) :
    -86400 < offset ∧ offset < 86400 := by
  cases hs with
  | universal => decide
  | ahead | behind => omega

theorem Spells.mono {Number Other : List Char → Nat → Prop} (hs : Spells Number s offset)
    (hmono : ∀ s n, Number s n → Other s n) : Spells Other s offset := by
  cases hs with
  | universal => exact .universal
  | ahead hh hm hday hhour => exact .ahead (hmono _ _ hh) (hmono _ _ hm) hday hhour
  | behind hh hm hday hhour => exact .behind (hmono _ _ hh) (hmono _ _ hm) hday hhour

/-! ## 2. Digits -/

theorem digits_iff : Digits s n ↔
    ∃ ds, ds ≠ [] ∧ (∀ d ∈ ds, d < 10) ∧ s = ds.map Nat.digitChar ∧ numeral ds = n := by
  constructor
  · intro hs
    induction hs with
    | @one d hd =>
      refine ⟨[d], List.cons_ne_nil _ _, ?_, rfl, Nat.zero_add d⟩
      rwa [List.forall_mem_singleton]
    | @more s n d _ hd ih =>
      obtain ⟨ds, -, hds, rfl, rfl⟩ := ih
      refine ⟨ds ++ [d], by simp, ?_, by simp, numeral_concat ds d⟩
      rw [List.forall_mem_append, List.forall_mem_singleton]
      exact ⟨hds, hd⟩
  · rintro ⟨ds, hne, hds, rfl, rfl⟩
    induction ds using List.reverseRecOn with
    | nil => exact absurd rfl hne
    | append_singleton ds d ih =>
      rw [List.forall_mem_append, List.forall_mem_singleton] at hds
      rw [List.map_append, List.map_singleton, numeral_concat]
      by_cases hfirst : ds = []
      · rw [hfirst]
        simpa [numeral] using Digits.one hds.2
      · exact .more (ih hfirst hds.1) hds.2

theorem eq_digitChar {c : Char} {d : Nat} (hc : digit? c = some d) :
    c = Nat.digitChar d ∧ d < 10 := by
  unfold digit? at hc
  split at hc
  next hrange =>
    cases hc
    have hlow : 48 ≤ c.toNat := hrange.1
    have hhigh : c.toNat ≤ 57 := hrange.2
    have hall : ∀ d < 10, Char.ofNat (48 + d) = Nat.digitChar d := by decide
    have hlt : c.toNat - 48 < 10 := by omega
    refine ⟨?_, hlt⟩
    show c = Nat.digitChar (c.toNat - 48)
    rw [← hall _ hlt, Nat.add_sub_cancel' hlow, Char.ofNat_toNat]
  next => cases hc

/-- The digits taken off a text are those it starts with. -/
theorem takeDigits_append (s : List Char) :
    (takeDigits s).1.map Nat.digitChar ++ (takeDigits s).2 = s ∧
      ∀ d ∈ (takeDigits s).1, d < 10 := by
  induction s with
  | nil => exact ⟨rfl, List.forall_mem_nil _⟩
  | cons c s ih =>
    cases hc : digit? c with
    | none =>
      simp only [takeDigits, hc]
      exact ⟨rfl, List.forall_mem_nil _⟩
    | some d =>
      obtain ⟨rfl, hd⟩ := eq_digitChar hc
      simp only [takeDigits, hc, List.map_cons, List.cons_append, ih.1, List.forall_mem_cons]
      exact ⟨trivial, hd, ih.2⟩

theorem natural?_eq_some_iff {k : Int} : natural? s = some k ↔ ∃ n : Nat, Digits s n ∧ k = n := by
  constructor
  · intro hs
    obtain ⟨happend, hds⟩ := takeDigits_append s
    unfold natural? at hs
    split at hs
    next d ds htake =>
      cases hs
      rw [htake, List.append_nil] at happend
      rw [htake] at hds
      exact ⟨_, digits_iff.mpr ⟨d :: ds, List.cons_ne_nil _ _, hds, happend.symm, rfl⟩, rfl⟩
    next => cases hs
  · rintro ⟨n, hs, rfl⟩
    obtain ⟨ds, hne, hds, rfl, rfl⟩ := digits_iff.mp hs
    have htake : takeDigits (ds.map Nat.digitChar ++ []) = (ds, []) :=
      takeDigits_map hds fun c hc => by cases hc
    rw [List.append_nil] at htake
    obtain ⟨d, ds, rfl⟩ := List.exists_cons_of_ne_nil hne
    rw [natural?, htake]

theorem Digits.digit_of_mem (hs : Digits s n) : ∀ c ∈ s, digit? c ≠ none := by
  obtain ⟨ds, -, hds, rfl, -⟩ := digits_iff.mp hs
  rw [List.forall_mem_map]
  intro d hd hnone
  rw [digit?_digitChar d (hds d hd)] at hnone
  cases hnone

theorem Digits.not_startsSigned (hs : Digits s n) : ¬ StartsSigned s := by
  rintro (hhead | hhead)
  · exact hs.digit_of_mem '+' (List.mem_of_head? hhead) (by decide)
  · exact hs.digit_of_mem '-' (List.mem_of_head? hhead) (by decide)

theorem Digits.colon_notMem (hs : Digits s n) : ':' ∉ s :=
  fun hcolon => hs.digit_of_mem ':' hcolon (by decide)

/-! ## 3. Numbers with a sign of their own -/

theorem Signed.colon_notMem (hs : Signed s n) : ':' ∉ s := by
  cases hs with
  | plain hs => exact hs.colon_notMem
  | plus hs | minus hs =>
    rw [List.mem_cons, not_or]
    exact ⟨by decide, hs.colon_notMem⟩

theorem Signed.digits_of_not_startsSigned (hs : Signed s n) (hsign : ¬ StartsSigned s) :
    Digits s n := by
  cases hs with
  | plain hs => exact hs
  | plus => exact absurd (.inl rfl) hsign
  | minus => exact absurd (.inr rfl) hsign

/-- The integers of texts that are not negative are those of the grammar. -/
theorem integer?_eq_some_iff : integer? s = some (n : Int) ↔ Signed s n := by
  unfold integer?
  split
  next s =>
    rw [natural?_eq_some_iff]
    constructor
    · rintro ⟨k, hs, hk⟩
      obtain rfl : n = k := by omega
      exact .plus hs
    · intro hs
      cases hs with
      | plain hs => exact absurd (.inl rfl) hs.not_startsSigned
      | plus hs => exact ⟨n, hs, rfl⟩
  next s =>
    rw [Option.map_eq_some_iff]
    constructor
    · rintro ⟨k, hs, hk⟩
      obtain ⟨j, hdigits, rfl⟩ := natural?_eq_some_iff.mp hs
      obtain ⟨rfl, rfl⟩ : n = 0 ∧ j = 0 := by omega
      exact .minus hdigits
    · intro hs
      cases hs with
      | plain hs => exact absurd (.inr rfl) hs.not_startsSigned
      | minus hs => exact ⟨0, natural?_eq_some_iff.mpr ⟨0, hs, rfl⟩, rfl⟩
  next s hplus hminus =>
    rw [natural?_eq_some_iff]
    constructor
    · rintro ⟨k, hs, hk⟩
      obtain rfl : n = k := by omega
      exact .plain hs
    · intro hs
      cases hs with
      | plain hs => exact ⟨n, hs, rfl⟩
      | plus => exact absurd rfl (hplus _)
      | minus => exact absurd rfl (hminus _)

/-! ## 4. Whole texts -/

theorem splitColon?_eq_some_iff : splitColon? s = some (h, m) ↔ s = h ++ ':' :: m ∧ ':' ∉ h := by
  induction s generalizing h with
  | nil => simp [splitColon?]
  | cons c s ih =>
    by_cases hc : c = ':'
    · rw [hc, splitColon?, Option.some.injEq, Prod.mk.injEq]
      cases h with
      | nil => simp [eq_comm]
      | cons c' h => grind
    · rw [splitColon?]
      · simp only [Option.map_eq_some_iff, Prod.exists, Prod.mk.injEq]
        cases h with
        | nil => grind
        | cons c' h => grind
      · exact hc

theorem clock?_eq_some_iff {k : Int} : clock? s = some k ↔
    ∃ h m hours minutes, s = h ++ ':' :: m ∧ Signed h hours ∧ Signed m minutes ∧
      hours < 24 ∧ minutes < 60 ∧ k = hours * 3600 + minutes * 60 := by
  simp only [clock?, Option.bind_eq_bind, Option.bind_eq_some_iff, Prod.exists,
    splitColon?_eq_some_iff]
  constructor
  · rintro ⟨h, m, ⟨hs, -⟩, i, hi, j, hj, hk⟩
    split at hk
    next hrange =>
      cases hk
      obtain ⟨hours, rfl⟩ := Int.eq_ofNat_of_zero_le hrange.1
      obtain ⟨minutes, rfl⟩ := Int.eq_ofNat_of_zero_le hrange.2.2.1
      exact ⟨h, m, hours, minutes, hs, integer?_eq_some_iff.mp hi, integer?_eq_some_iff.mp hj,
        by omega, by omega, rfl⟩
    next => cases hk
  · rintro ⟨h, m, hours, minutes, hs, hh, hm, hday, hhour, rfl⟩
    refine ⟨h, m, ⟨hs, hh.colon_notMem⟩, hours, integer?_eq_some_iff.mpr hh, minutes,
      integer?_eq_some_iff.mpr hm, if_pos (by omega)⟩

/-- The offsets that are read are those that the grammar spells, signs before the numbers
included. -/
theorem offset?_eq_some_iff : offset? s = some offset ↔ Spells Signed s offset := by
  constructor
  · intro hs
    unfold offset? at hs
    split at hs
    next =>
      cases hs
      exact .universal
    next =>
      obtain ⟨h, m, hours, minutes, rfl, hh, hm, hday, hhour, rfl⟩ := clock?_eq_some_iff.mp hs
      exact .ahead hh hm hday hhour
    next =>
      obtain ⟨k, hclock, rfl⟩ := Option.map_eq_some_iff.mp hs
      obtain ⟨h, m, hours, minutes, rfl, hh, hm, hday, hhour, rfl⟩ := clock?_eq_some_iff.mp hclock
      exact .behind hh hm hday hhour
    next => cases hs
  · intro hs
    cases hs with
    | universal => rfl
    | ahead hh hm hday hhour =>
      exact clock?_eq_some_iff.mpr ⟨_, _, _, _, rfl, hh, hm, hday, hhour, rfl⟩
    | behind hh hm hday hhour =>
      exact Option.map_eq_some_iff.mpr
        ⟨_, clock?_eq_some_iff.mpr ⟨_, _, _, _, rfl, hh, hm, hday, hhour, rfl⟩, rfl⟩

/-- Two runs of digits around a colon are those that any split at a colon gives. -/
theorem Digits.not_secondSign {c : Char} {hours minutes : Nat} (hh : Digits h hours)
    (hm : Digits m minutes) : ¬ SecondSign (c :: (h ++ ':' :: m)) := by
  rintro ⟨c', h', m', heq, hsign⟩
  obtain ⟨-, heq⟩ := List.cons.inj heq
  obtain ⟨rfl, -, rfl⟩ :=
    (List.append_cons_inj_of_notMem hh.colon_notMem hm.colon_notMem).mp heq
  exact hsign.elim hh.not_startsSigned hm.not_startsSigned

/-- The texts without a sign before either number are those without a second sign. -/
theorem spells_digits_iff :
    Spells Digits s offset ↔ Spells Signed s offset ∧ ¬ SecondSign s := by
  constructor
  · intro hs
    refine ⟨hs.mono fun _ _ => .plain, ?_⟩
    cases hs with
    | universal =>
      rintro ⟨c, h, m, heq, -⟩
      simp at heq
    | ahead hh hm => exact hh.not_secondSign hm
    | behind hh hm => exact hh.not_secondSign hm
  · rintro ⟨hs, hsecond⟩
    have hplain {c : Char} {h m : List Char} (hs : s = c :: (h ++ ':' :: m)) :
        ¬ StartsSigned h ∧ ¬ StartsSigned m :=
      not_or.mp fun hsign => hsecond ⟨c, h, m, hs, hsign⟩
    cases hs with
    | universal => exact .universal
    | ahead hh hm hday hhour =>
      obtain ⟨hh', hm'⟩ := hplain rfl
      exact .ahead (hh.digits_of_not_startsSigned hh') (hm.digits_of_not_startsSigned hm') hday
        hhour
    | behind hh hm hday hhour =>
      obtain ⟨hh', hm'⟩ := hplain rfl
      exact .behind (hh.digits_of_not_startsSigned hh') (hm.digits_of_not_startsSigned hm') hday
        hhour

end Time.Zone

/-! ## 5. Tagged times -/

namespace Pseudotype

open Time.Zone

variable {options : Options} {members : List (String × Json)} {epoch : Double} {zone : String}

theorem normalize_of_spells {offset : Int} (htag : nativeTag? options members = some .time)
    (hepoch : (Members.get? "epoch_time" members).bind Json.asDouble? = some epoch)
    (hzone : (Members.get? "timezone" members).bind Json.asString? = some zone)
    (hspells : Spells Signed zone.toList offset) :
    (∃ t, (millis? epoch).bind (fun millis => Time.ofMillis? millis offset) = some t ∧
      normalize options (.object members) = .ok (.time t)) ∨
    ((millis? epoch).bind (fun millis => Time.ofMillis? millis offset) = none ∧
      normalize options (.object members) = .error (.timeOutOfRange epoch)) := by
  have hoffset := offset?_eq_some_iff.mpr hspells
  rw [normalize, htag]
  cases ht : (millis? epoch).bind fun millis => Time.ofMillis? millis offset with
  | none =>
    exact .inr ⟨rfl,
      time_of_malformed (.outOfRange hepoch hzone hoffset (Option.bind_eq_none_iff.mp ht))⟩
  | some t =>
    obtain ⟨millis, hmillis, ht⟩ := Option.bind_eq_some_iff.mp ht
    exact .inl ⟨t, rfl, time_of_gives ⟨hepoch, hzone, hoffset, hmillis, ht⟩⟩

theorem normalize_of_not_spells (htag : nativeTag? options members = some .time)
    (hepoch : (Members.get? "epoch_time" members).bind Json.asDouble? = some epoch)
    (hzone : (Members.get? "timezone" members).bind Json.asString? = some zone)
    (hspells : ∀ offset, ¬ Spells Signed zone.toList offset) :
    normalize options (.object members) = .error (.invalidTimezone zone) := by
  have hoffset : offset? zone.toList = none :=
    Option.eq_none_iff_forall_ne_some.mpr fun offset h => hspells offset (offset?_eq_some_iff.mp h)
  rw [normalize, htag]
  exact time_of_malformed (.badZone hepoch hzone hoffset)

/-- A natively presented time with a number of seconds and a text for its offset.  A text of the
grammar, where each number may bring a sign of its own, spells an offset of less than a day: that of
the time, unless the time is out of range.  Any other text is reported as it is.  The texts of the
grammar whose numbers bring no sign are those without a second sign. -/
theorem offsets_of_texts (htag : nativeTag? options members = some .time)
    (hepoch : (Members.get? "epoch_time" members).bind Json.asDouble? = some epoch)
    (hzone : (Members.get? "timezone" members).bind Json.asString? = some zone) :
    (∀ offset, Spells Signed zone.toList offset → -86400 < offset ∧ offset < 86400 ∧
      (∀ t, normalize options (.object members) = .ok (.time t) ↔
        (millis? epoch).bind (fun millis => Time.ofMillis? millis offset) = some t) ∧
      (normalize options (.object members) = .error (.timeOutOfRange epoch) ↔
        (millis? epoch).bind (fun millis => Time.ofMillis? millis offset) = none)) ∧
    (∀ t, normalize options (.object members) = .ok (.time t) →
      Spells Signed zone.toList t.offset) ∧
    (normalize options (.object members) = .error (.invalidTimezone zone) ↔
      ∀ offset, ¬ Spells Signed zone.toList offset) ∧
    (DecodeError.invalidTimezone zone).message = "Invalid timezone: " ++ zone ∧
    ∀ offset, Spells Digits zone.toList offset ↔
      Spells Signed zone.toList offset ∧ ¬ SecondSign zone.toList := by
  refine ⟨fun offset hspells => ⟨hspells.bounds.1, hspells.bounds.2, ?_⟩, fun t ht => ?_, ⟨?_, ?_⟩,
    rfl, fun offset => spells_digits_iff⟩
  · obtain ⟨t, ht, hnormal⟩ | ⟨hnone, hnormal⟩ := normalize_of_spells htag hepoch hzone hspells
    · simp [ht, hnormal, eq_comm]
    · simp [hnone, hnormal]
  · by_cases hspells : ∃ offset, Spells Signed zone.toList offset
    · obtain ⟨offset, hspells⟩ := hspells
      obtain ⟨u, hu, hnormal⟩ | ⟨-, hnormal⟩ := normalize_of_spells htag hepoch hzone hspells
      · rw [hnormal] at ht
        cases ht
        obtain ⟨millis, -, hu⟩ := Option.bind_eq_some_iff.mp hu
        rwa [(Time.ofMillis?_bounds hu).2.2]
      · rw [hnormal] at ht
        cases ht
    · rw [normalize_of_not_spells htag hepoch hzone (not_exists.mp hspells)] at ht
      cases ht
  · intro hreported offset hspells
    obtain ⟨t, -, hnormal⟩ | ⟨-, hnormal⟩ := normalize_of_spells htag hepoch hzone hspells
    · rw [hnormal] at hreported
      cases hreported
    · rw [hnormal] at hreported
      cases hreported
  · exact normalize_of_not_spells htag hepoch hzone

/-- A plus before the hours changes nothing: the time is five hours ahead, though the text is none
of those whose numbers bring no sign. -/
theorem offsets_of_texts_second_sign :
    let members := [("$reql_type$", Json.string "TIME"), ("epoch_time", .number (.natural 0)),
      ("timezone", .string "++5:00")]
    normalize {} (.object members) = .ok (.time ⟨0, 0, 18000⟩) ∧
      ∀ offset, ¬ Spells Digits "++5:00".toList offset := by
  intro members
  let zero : Double := ⟨false, 0, by decide⟩
  have htag : nativeTag? {} members = some .time := by rfl
  have hepoch : (Members.get? "epoch_time" members).bind Json.asDouble? = some zero := by
    decide +kernel
  have hzone : (Members.get? "timezone" members).bind Json.asString? = some "++5:00" := by rfl
  have hhours : Signed ['+', '5'] 5 := .plus (.one (by decide : 5 < 10))
  have hminutes : Signed ['0', '0'] 0 :=
    .plain (.more (.one (by decide : 0 < 10)) (by decide : 0 < 10))
  have hspells : Spells Signed "++5:00".toList 18000 :=
    .ahead hhours hminutes (by decide) (by decide)
  have hsecond : SecondSign "++5:00".toList :=
    ⟨'+', ['+', '5'], ['0', '0'], by decide, .inl (.inl rfl)⟩
  obtain ⟨hgrammar, -, -, -, hplain⟩ := offsets_of_texts htag hepoch hzone
  obtain ⟨-, -, htime, -⟩ := hgrammar 18000 hspells
  exact ⟨(htime _).mpr (by decide +kernel), fun offset h => ((hplain offset).mp h).2 hsecond⟩

end Pseudotype
end RowStream
