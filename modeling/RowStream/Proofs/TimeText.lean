import RowStream.Proofs.Calendar

/-!
# Reading written times

What is written of a time of the first ten thousand years, with whole milliseconds and an offset of
whole minutes, is read back as the same instant with the same offset.
-/

namespace RowStream.Time

open Text

attribute [local instance (high)] instPowNat

/-! ## 1. Digits -/

theorem digit?_digitChar : ∀ d < 10, digit? (Nat.digitChar d) = some d := by decide

theorem isBlank_digitChar : ∀ d < 10, isBlank (Nat.digitChar d) = false := by decide

theorem digitChar_ne {d : Nat} {c : Char} (hd : d < 10) (hc : digit? c = none) :
    Nat.digitChar d ≠ c := by
  intro heq
  have hdigit := digit?_digitChar d hd
  rw [heq, hc] at hdigit
  cases hdigit

theorem noDigit_take {s : List Char} (h : NoDigit s) (n : Nat) : NoDigit (s.take n) := by
  intro c hc
  refine h c ?_
  cases n with
  | zero => cases hc
  | succ n => rwa [List.head?_take, if_neg (Nat.succ_ne_zero n)] at hc

theorem takeDigits_map {ds : List Nat} {rest : List Char} (hds : ∀ d ∈ ds, d < 10)
    (hrest : NoDigit rest) : takeDigits (ds.map Nat.digitChar ++ rest) = (ds, rest) := by
  induction ds with
  | nil => exact takeDigits_of_noDigit hrest
  | cons d ds ih =>
    rw [List.forall_mem_cons] at hds
    rw [List.map_cons, List.cons_append, takeDigits, digit?_digitChar d hds.1]
    simp only [ih hds.2]

theorem numeral_concat (ds : List Nat) (d : Nat) : numeral (ds ++ [d]) = numeral ds * 10 + d := by
  simp [numeral]

-- The characters of a fixed width are those of as many digits, which denote the number if it fits.
theorem exists_fixedDigits (width n : Nat) : ∃ ds : List Nat,
    fixedDigits width n = ds.map Nat.digitChar ∧ (∀ d ∈ ds, d < 10) ∧ ds.length = width ∧
      (n < 10 ^ width → numeral ds = n) := by
  induction width generalizing n with
  | zero =>
    refine ⟨[], rfl, (fun _ h => by cases h), rfl, fun h => ?_⟩
    have hzero : n = 0 := by simpa using h
    rw [hzero]
    rfl
  | succ width ih =>
    obtain ⟨ds, hchars, hds, hlength, hnumeral⟩ := ih (n / 10)
    refine ⟨ds ++ [n % 10], ?_, ?_, ?_, fun h => ?_⟩
    · rw [fixedDigits, hchars, List.map_append, List.map_cons, List.map_nil]
    · intro d hd
      rcases List.mem_append.mp hd with hd | hd
      · exact hds d hd
      · rw [List.mem_singleton.mp hd]
        omega
    · rw [List.length_append, hlength, List.length_singleton]
    · have hfits : n / 10 < 10 ^ width := by
        rw [Nat.pow_succ] at h
        omega
      rw [numeral_concat, hnumeral hfits]
      omega

/-! ## 2. Readers on what is written -/

/-- A reader takes a value off a text and leaves a rest. -/
def Takes {α : Type} (reader : Reader α) (s : List Char) (a : α) (rest : List Char) : Prop :=
  reader.run s = .ok (a, rest)

theorem Takes.bind {α β : Type} {reader : Reader α} {next : α → Reader β} {s rest rest' : List Char}
    {a : α} {b : β} (h : Takes reader s a rest) (hnext : Takes (next a) rest b rest') :
    Takes (reader >>= next) s b rest' := by
  rw [Takes, StateT.run_bind, h]
  exact hnext

theorem takes_pure {α : Type} (a : α) (s : List Char) : Takes (pure a) s a s := rfl

theorem takes_get (s : List Char) : Takes get s s s := rfl

theorem takes_set (s rest : List Char) : Takes (set rest) s PUnit.unit rest := rfl

theorem takes_modify (f : List Char → List Char) (s : List Char) :
    Takes (modify f) s PUnit.unit (f s) := rfl

theorem takes_char (c : Char) (rest : List Char) : Takes (Reader.char c) (c :: rest) () rest := by
  refine (takes_get _).bind ?_
  simp only [if_pos]
  exact takes_set _ _

theorem takes_blanks {c : Char} {rest : List Char} (h : isBlank c = false) :
    Takes Reader.blanks (c :: rest) () (c :: rest) := by
  have hdrop : dropBlank (c :: rest) = c :: rest := by simp [dropBlank, h]
  have htakes := takes_modify dropBlank (c :: rest)
  rw [hdrop] at htakes
  exact htakes

section

variable {ds : List Nat} {rest : List Char} {width n : Nat}

theorem takes_digits (hne : ds ≠ []) (hlength : ds.length ≤ width) (hds : ∀ d ∈ ds, d < 10)
    (hrest : NoDigit rest) :
    Takes (Reader.digits width) (ds.map Nat.digitChar ++ rest) ds rest := by
  have htake : (ds.map Nat.digitChar ++ rest).take width =
      ds.map Nat.digitChar ++ rest.take (width - ds.length) := by
    rw [List.take_append, List.length_map, List.take_of_length_le (by simpa using hlength)]
  have hdrop : (ds.map Nat.digitChar ++ rest).drop ds.length = rest := by
    rw [← List.length_map Nat.digitChar, List.drop_left]
  refine (takes_get _).bind ?_
  rw [htake, takeDigits_map hds (noDigit_take hrest _)]
  cases ds with
  | nil => exact absurd rfl hne
  | cons d ds =>
    simp only [hdrop]
    exact (takes_set _ _).bind (takes_pure _ _)

theorem takes_number {low high : Nat} (hn : n < 100) (hlow : low ≤ n) (hhigh : n ≤ high)
    (hrest : NoDigit rest) :
    Takes (Reader.number low high) (fixedDigits 2 n ++ rest) n rest := by
  obtain ⟨ds, hchars, hds, hlength, hnumeral⟩ := exists_fixedDigits 2 n
  rw [hchars]
  cases ds with
  | nil => cases hlength
  | cons d ds =>
    have hd : d < 10 := hds d (.head _)
    refine (takes_blanks (isBlank_digitChar d hd)).bind ?_
    refine (takes_digits (List.cons_ne_nil d ds) (Nat.le_of_eq hlength) hds hrest).bind ?_
    rw [hnumeral hn, if_pos ⟨hlow, hhigh⟩]
    exact takes_pure n rest

theorem takes_year (hn : n < 10000) (hrest : NoDigit rest) :
    Takes Reader.year (fixedDigits 4 n ++ rest) n rest := by
  obtain ⟨ds, hchars, hds, hlength, hnumeral⟩ := exists_fixedDigits 4 n
  rw [hchars]
  cases ds with
  | nil => cases hlength
  | cons d ds =>
    have hd : d < 10 := hds d (.head _)
    refine (takes_blanks (isBlank_digitChar d hd)).bind ?_
    refine (takes_get _).bind ?_
    dsimp only
    split
    next heq => exact absurd (List.cons.inj heq).1 (digitChar_ne hd (by decide))
    next heq => exact absurd (List.cons.inj heq).1 (digitChar_ne hd (by decide))
    next =>
      refine (takes_digits (List.cons_ne_nil d ds) (Nat.le_of_eq hlength) hds hrest).bind ?_
      refine (takes_pure _ _).bind ?_
      dsimp only
      rw [hnumeral hn, if_neg Bool.false_ne_true, if_pos (by omega)]
      exact takes_pure _ rest

theorem takes_twoDigits {top : Nat} (hn : n < 100) (htop : n / 10 ≤ top) :
    Takes (Reader.twoDigits top) (fixedDigits 2 n ++ rest) n rest := by
  refine (takes_get _).bind ?_
  simp only [fixedDigits, List.nil_append, List.cons_append]
  rw [digit?_digitChar _ (by omega), digit?_digitChar _ (by omega)]
  have hvalue : n / 10 % 10 * 10 + n % 10 = n := by omega
  dsimp only
  rw [if_neg (by omega), hvalue]
  exact (takes_set _ _).bind (takes_pure _ _)

theorem takes_fraction {c : Char} (hmillis : n % 1000000 = 0) (hn : n < 1000000000)
    (hdigit : digit? c = none) (hpoint : c ≠ '.') :
    Takes Reader.fraction (fractionChars n ++ c :: rest) n (c :: rest) := by
  unfold fractionChars
  by_cases hzero : n = 0
  · rw [if_pos hzero, List.nil_append, hzero]
    refine (takes_get _).bind ?_
    split
    next heq => exact absurd (List.cons.inj heq).1 hpoint
    next => exact takes_pure 0 _
  · rw [if_neg hzero, if_pos hmillis]
    obtain ⟨ds, hchars, hds, hlength, hnumeral⟩ := exists_fixedDigits 3 (n / 1000000)
    have hne : ds ≠ [] := by
      rintro rfl
      cases hlength
    have hrest : NoDigit (c :: rest) := noDigit_cons rest hdigit
    have hvalue : numeral ds * 10 ^ (9 - ds.length) = n := by
      rw [hnumeral (by omega), hlength]
      omega
    have hafter := takes_modify (fun s => (takeDigits s).2) (c :: rest)
    rw [takeDigits_of_noDigit hrest] at hafter
    rw [hchars]
    refine (takes_get _).bind ((takes_set _ _).bind ?_)
    refine (takes_digits hne (by omega) hds hrest).bind (hafter.bind ?_)
    rw [hvalue]
    exact takes_pure n _

theorem dropWhile_colon (n : Nat) (rest : List Char) :
    (':' :: (fixedDigits 2 n ++ rest)).dropWhile (fun c => c = ':' ∨ isBlank c) =
      fixedDigits 2 n ++ rest := by
  have htens : n / 10 % 10 < 10 := by omega
  have hcolon := digitChar_ne (c := ':') htens (by decide)
  simp [fixedDigits, hcolon, isBlank_digitChar _ htens]

theorem takes_signedMinutes {sign : Char} (rest : List Char) (hsign : sign = '+' ∨ sign = '-')
    (hn : n < 1440) :
    Takes Reader.offset (sign :: (fixedDigits 2 (n / 60) ++ ':' :: fixedDigits 2 (n % 60)) ++ rest)
      (if sign = '+' then (n * 60 : Nat) else -(n * 60 : Nat)) rest := by
  have hupper (s : List Char) : (sign :: s).map Char.toUpper ≠ ['U', 'T', 'C'] := by
    intro heq
    have hletter : Char.toUpper sign = 'U' := (List.cons.inj heq).1
    rcases hsign with rfl | rfl <;> exact absurd hletter (by decide)
  have hzulu : ¬ (sign = 'Z' ∨ sign = 'z') := by rcases hsign with rfl | rfl <;> decide
  have hsigned : sign = '+' ∨ sign = '-' ∨ sign = '\u2212' := hsign.imp_right .inl
  have hvalue : n / 60 * 3600 + n % 60 * 60 = n * 60 := by omega
  refine (takes_get _).bind ?_
  dsimp only [List.cons_append]
  rw [if_neg (hupper _), if_neg hzulu, if_pos hsigned]
  rw [List.append_assoc, List.cons_append]
  refine (takes_set _ _).bind ((takes_twoDigits (by omega) (by omega)).bind ?_)
  refine (takes_modify _ _).bind ?_
  rw [dropWhile_colon]
  refine (takes_twoDigits (by omega) (by omega)).bind ?_
  rw [hvalue]
  exact takes_pure _ rest

theorem noDigit_fraction (nanos : Nat) (h : NoDigit rest) :
    NoDigit (fractionChars nanos ++ rest) := by
  unfold fractionChars
  split
  · exact h
  · split
    · exact noDigit_cons _ (by decide)
    · split <;> exact noDigit_cons _ (by decide)

theorem takes_offset {offset : Int} (rest : List Char) (hminutes : offset % 60 = 0)
    (hday : -86400 < offset ∧ offset < 86400) :
    Takes Reader.offset (offsetChars offset ++ rest) offset rest := by
  have hn : offset.natAbs / 60 < 1440 := by omega
  unfold offsetChars
  by_cases hneg : offset < 0
  · have htakes := takes_signedMinutes rest (.inr rfl) hn
    have hvalue : -((offset.natAbs / 60 * 60 : Nat) : Int) = offset := by omega
    rw [if_neg (by decide), hvalue] at htakes
    simp only [hneg, if_true]
    exact htakes
  · have htakes := takes_signedMinutes rest (.inl rfl) hn
    have hvalue : ((offset.natAbs / 60 * 60 : Nat) : Int) = offset := by omega
    rw [if_pos rfl, hvalue] at htakes
    simp only [hneg, if_false]
    exact htakes

end

/-! ## 3. Whole times -/

/-- A time that is written in full: of the first ten thousand years as its clock shows it, with
whole milliseconds and an offset of whole minutes, less than a day. -/
structure Plain (t : Time) : Prop where
  millis : t.nanos % 1000000 = 0
  subsecond : t.nanos < 1000000000
  minutes : t.offset % 60 = 0
  day : -86400 < t.offset ∧ t.offset < 86400
  year : 0 ≤ t.date.year ∧ t.date.year ≤ 9999

variable {t : Time}

theorem date_bounds (t : Time) : 1 ≤ t.date.month ∧ t.date.month ≤ 12 ∧ 1 ≤ t.date.day ∧
    t.date.day ≤ 31 := by
  obtain ⟨hmonth, hmonth', hday, hday'⟩ := Date.ofDays_valid (t.localSeconds / 86400)
  refine ⟨hmonth, hmonth', hday, Nat.le_trans hday' ?_⟩
  unfold Date.monthLength
  split
  · split <;> omega
  · split <;> omega

theorem secondOfDay_lt (t : Time) : t.secondOfDay < 86400 := by
  unfold secondOfDay
  omega

-- The parts in their order, each before what comes after it.
theorem chars_eq (h : t.Plain) : t.chars =
    fixedDigits 4 t.date.year.toNat ++ '-' :: (fixedDigits 2 t.date.month ++
      '-' :: (fixedDigits 2 t.date.day ++ 'T' :: (fixedDigits 2 (t.secondOfDay / 3600) ++
        ':' :: (fixedDigits 2 (t.secondOfDay / 60 % 60) ++
          ':' :: (fixedDigits 2 (t.secondOfDay % 60) ++
            (fractionChars t.nanos ++ offsetChars t.offset)))))) := by
  have hleap : ¬ 1000000000 ≤ t.nanos := Nat.not_le.mpr h.subsecond
  have hnanos : t.nanos % 1000000000 = t.nanos := Nat.mod_eq_of_lt h.subsecond
  unfold chars yearChars
  dsimp only
  rw [if_pos h.year, if_neg hleap, Nat.add_zero, hnanos]
  simp only [List.append_assoc, List.cons_append]

theorem takes_fields (h : t.Plain) : Takes readFields t.chars
    ⟨t.date.year, t.date.month, t.date.day, t.secondOfDay / 3600, t.secondOfDay / 60 % 60,
      t.secondOfDay % 60, t.nanos, t.offset⟩ [] := by
  obtain ⟨hmonth, hmonth', hday, hday'⟩ := date_bounds t
  have hsecond := secondOfDay_lt t
  have hyear := h.year
  have hyearNat : (t.date.year.toNat : Int) = t.date.year := by omega
  obtain ⟨sign, zone, hzone, hdigit, hpoint, hblank⟩ : ∃ sign zone,
      offsetChars t.offset = sign :: zone ∧ digit? sign = none ∧ sign ≠ '.' ∧
      isBlank sign = false := by
    unfold offsetChars
    refine ⟨_, _, rfl, ?_⟩
    split <;> decide
  have hfraction := noDigit_fraction t.nanos (noDigit_cons zone hdigit)
  have hoffset := takes_offset [] h.minutes h.day
  rw [List.append_nil, hzone] at hoffset
  rw [chars_eq h, hzone]
  unfold readFields
  refine (takes_year (by omega) (noDigit_cons _ (by decide))).bind ?_
  refine (takes_blanks (by decide)).bind ((takes_char _ _).bind ?_)
  refine (takes_number (by omega) hmonth hmonth' (noDigit_cons _ (by decide))).bind ?_
  refine (takes_blanks (by decide)).bind ((takes_char _ _).bind ?_)
  refine (takes_number (by omega) hday hday' (noDigit_cons _ (by decide))).bind ?_
  refine (takes_get _).bind ?_
  dsimp only
  rw [if_pos (.inl rfl)]
  refine (takes_set _ _).bind ?_
  refine (takes_number (by omega) (Nat.zero_le _) (by omega) (noDigit_cons _ (by decide))).bind ?_
  refine (takes_blanks (by decide)).bind ((takes_char _ _).bind ?_)
  refine (takes_number (by omega) (Nat.zero_le _) (by omega) (noDigit_cons _ (by decide))).bind ?_
  refine (takes_blanks (by decide)).bind ((takes_char _ _).bind ?_)
  refine (takes_number (by omega) (Nat.zero_le _) (by omega) hfraction).bind ?_
  refine (takes_fraction h.millis h.subsecond hdigit hpoint).bind ?_
  refine (takes_blanks hblank).bind (hoffset.bind ?_)
  rw [hyearNat]
  exact takes_pure _ _

theorem ofFields_eq (h : t.Plain) : ofFields
    ⟨t.date.year, t.date.month, t.date.day, t.secondOfDay / 3600, t.secondOfDay / 60 % 60,
      t.secondOfDay % 60, t.nanos, t.offset⟩ = .ok t := by
  have hdays := Date.days_bounds h.year
  have hday := h.day
  have hsecond := secondOfDay_lt t
  have hdate : Date.mk? t.date.year t.date.month t.date.day = some t.date := Date.mk?_ofDays _
  have hclock : t.secondOfDay / 3600 * 3600 + t.secondOfDay / 60 % 60 * 60 +
      min (t.secondOfDay % 60) 59 = t.secondOfDay := by omega
  have hlocal : t.date.toDays * 86400 + (t.secondOfDay : Int) = t.localSeconds := by
    rw [date, Date.toDays_ofDays, secondOfDay]
    omega
  have hseconds : t.localSeconds = t.seconds + t.offset := rfl
  have hleap : ¬ t.secondOfDay % 60 = 60 := by omega
  unfold ofFields firstSecond lastSecond
  dsimp only
  rw [hdate]
  dsimp only
  rw [hclock, hlocal, if_neg (by omega), if_neg (by omega), if_neg (by omega), if_neg hleap]
  rw [hseconds, Int.add_sub_cancel, Nat.add_zero]
  rfl

/-- A plain time is read back from its text as it is. -/
theorem ofText_text (h : t.Plain) : ofText t.text = .ok t := by
  have hread : readFields.run t.chars = .ok (_, []) := takes_fields h
  rw [ofText, text, String.toList_ofList, read, hread]
  exact ofFields_eq h

end RowStream.Time
