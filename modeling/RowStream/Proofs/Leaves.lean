import RowStream.Json.Outline

/-!
# Leaves of JSON texts

What is taken off the front of a text for a number or a string is a text by itself, and is taken
from wherever that text stands.  A number is taken as far as it goes, so what follows it has to begin
with a character that does not go on with it.
-/

namespace RowStream.Json.Outline

open Text

/-! ## 1. White space -/

/-- A text is white space. -/
def Blank (s : List Char) : Prop := ∀ c ∈ s, isJsonBlank c = true

theorem skip_blank {b : List Char} (hb : Blank b) (s : List Char) : skip (b ++ s) = skip s :=
  List.dropWhile_append_of_pos hb

theorem skip_cons {c : Char} (hc : isJsonBlank c = false) (s : List Char) :
    skip (c :: s) = c :: s :=
  List.dropWhile_cons_of_neg (by simp [hc])

theorem skip_to {b : List Char} {c : Char} (hb : Blank b) (hc : isJsonBlank c = false)
    (s : List Char) : skip (b ++ c :: s) = c :: s := by
  rw [skip_blank hb, skip_cons hc]

theorem exists_blank (s : List Char) : ∃ b, Blank b ∧ s = b ++ skip s := by
  exact ⟨s.takeWhile isJsonBlank, List.all_eq_true.mp List.all_takeWhile,
    List.takeWhile_append_dropWhile.symm⟩

/-! ## 2. What follows a number -/

/-- A text does not go on with a character of a number. -/
def Stops (s : List Char) : Prop :=
  ∀ c, s.head? = some c → digit? c = none ∧ c ≠ '.' ∧ c ≠ 'e' ∧ c ≠ 'E'

theorem stops_nil : Stops [] := by
  intro c h
  cases h

theorem stops_cons {c : Char} (rest : List Char)
    (h : digit? c = none ∧ c ≠ '.' ∧ c ≠ 'e' ∧ c ≠ 'E') : Stops (c :: rest) := by
  intro c' heq
  cases heq
  exact h

theorem stops_blank {c : List Char} {d : Char} (rest : List Char) (hc : Blank c)
    (hd : digit? d = none ∧ d ≠ '.' ∧ d ≠ 'e' ∧ d ≠ 'E') : Stops (c ++ d :: rest) := by
  cases c with
  | nil => exact stops_cons rest hd
  | cons c cs =>
    have hblank := hc c (.head cs)
    refine stops_cons _ ?_
    simp only [isJsonBlank, Bool.or_eq_true, beq_iff_eq] at hblank
    rcases hblank with ((rfl | rfl) | rfl) | rfl <;> decide

/-- What is taken off the front of a text does not depend on what follows, as long as that begins
with the same character or does not go on with a number. -/
def Local {α : Type} (take : List Char → Option (α × List Char)) : Prop :=
  ∀ s a r, take s = some (a, r) →
    ∃ p, s = p ++ r ∧ ∀ t, (Stops t ∨ t.head? = r.head?) → take (p ++ t) = some (a, t)

theorem local_some {α : Type} (a : α) : Local fun s => some (a, s) := by
  intro s b r h
  cases h
  exact ⟨[], rfl, fun t _ => rfl⟩

theorem Local.bind {α β : Type} {take : List Char → Option (α × List Char)}
    {next : α → List Char → Option (β × List Char)} (h : Local take) (hnext : ∀ a, Local (next a)) :
    Local fun s => take s >>= fun x => next x.1 x.2 := by
  intro s b r hb
  obtain ⟨⟨a, middle⟩, htake, hafter⟩ := Option.bind_eq_some_iff.mp hb
  obtain ⟨p, rfl, hp⟩ := h s a middle htake
  obtain ⟨q, rfl, hq⟩ := hnext a middle b r hafter
  refine ⟨p ++ q, by rw [List.append_assoc], fun t ht => ?_⟩
  have hmiddle : Stops (q ++ t) ∨ (q ++ t).head? = (q ++ r).head? := by
    cases q with
    | nil => exact ht
    | cons c q => exact .inr rfl
  rw [List.append_assoc]
  simp only [hp _ hmiddle, Option.bind_eq_bind, Option.bind_some, hq t ht]

/-! ## 3. Numbers -/

theorem takeDigits_local (s : List Char) : ∃ p, s = p ++ (takeDigits s).2 ∧
    ∀ t, (Stops t ∨ t.head? = (takeDigits s).2.head?) →
      takeDigits (p ++ t) = ((takeDigits s).1, t) := by
  induction s with
  | nil =>
    refine ⟨[], rfl, fun t ht => takeDigits_of_noDigit fun c hc => ?_⟩
    rcases ht with ht | ht
    · exact (ht c hc).1
    · cases ht.symm.trans hc
  | cons c s ih =>
    obtain ⟨p, hs, hp⟩ := ih
    cases hdigit : digit? c with
    | some d =>
      simp only [takeDigits, hdigit]
      refine ⟨c :: p, by rw [List.cons_append, ← hs], fun t ht => ?_⟩
      simp only [List.cons_append, takeDigits, hdigit, hp t ht]
    | none =>
      simp only [takeDigits, hdigit]
      refine ⟨[], rfl, fun t ht => takeDigits_of_noDigit fun c' hc => ?_⟩
      rcases ht with ht | ht
      · exact (ht c' hc).1
      · cases ht.symm.trans hc
        exact hdigit

-- What is made of a run of digits does not depend on what follows them.
theorem local_digits {α : Type} (read : List Nat → Option α) :
    Local fun s => (read (takeDigits s).1).map fun a => (a, (takeDigits s).2) := by
  intro s a r h
  obtain ⟨p, hs, hp⟩ := takeDigits_local s
  obtain ⟨a', hread, heq⟩ := Option.map_eq_some_iff.mp h
  cases heq
  refine ⟨p, hs, fun t ht => ?_⟩
  simp only [hp t ht, hread, Option.map_some]

/-- One zero, or digits that do not begin with zero. -/
def wholeDigits? (ds : List Nat) : Option (List Nat) :=
  if ds = [] ∨ ds.head? = some 0 ∧ 1 < ds.length then none else some ds

theorem takeWhole?_eq (s : List Char) : takeWhole? s =
    (wholeDigits? (takeDigits s).1).map fun ds => (ds, (takeDigits s).2) := by
  unfold takeWhole? wholeDigits?
  rcases takeDigits s with ⟨ds, after⟩
  cases ds with
  | nil => rfl
  | cons d ds =>
    cases ds with
    | nil => simp
    | cons d' ds => cases d <;> simp

theorem takeWhole?_local : Local takeWhole? := by
  rw [funext takeWhole?_eq]
  exact local_digits wholeDigits?

/-- At least one digit. -/
def someDigits : List Nat → Option (List Nat)
  | [] => none
  | d :: ds => some (d :: ds)

/-- Takes a part of a number that is there if its first character is. -/
def takeOptional {α : Type} (opens : Char → Prop) [DecidablePred opens] (absent : α)
    (take : List Char → Option (α × List Char)) : List Char → Option (α × List Char)
  | [] => some (absent, [])
  | c :: rest => if opens c then take rest else some (absent, c :: rest)

theorem Local.optional {α : Type} {opens : Char → Prop} [DecidablePred opens] {absent : α}
    {take : List Char → Option (α × List Char)} (h : Local take)
    (hopens : ∀ c, opens c → c = '.' ∨ c = 'e' ∨ c = 'E') :
    Local (takeOptional opens absent take) := by
  have habsent (t : List Char) (ht : ∀ c, t.head? = some c → ¬ opens c) :
      takeOptional opens absent take t = some (absent, t) := by
    cases t with
    | nil => rfl
    | cons c t => rw [takeOptional, if_neg (ht c rfl)]
  have hstops (t : List Char) (ht : Stops t) : ∀ c, t.head? = some c → ¬ opens c := by
    intro c hc hopen
    obtain ⟨-, hpoint, he, hE⟩ := ht c hc
    rcases hopens c hopen with rfl | rfl | rfl
    · exact hpoint rfl
    · exact he rfl
    · exact hE rfl
  have hnone (s : List Char) (hs : ∀ c, s.head? = some c → ¬ opens c) : ∃ p, s = p ++ s ∧
      ∀ t, (Stops t ∨ t.head? = s.head?) →
        takeOptional opens absent take (p ++ t) = some (absent, t) := by
    refine ⟨[], rfl, fun t ht => habsent t ?_⟩
    rcases ht with ht | ht
    · exact hstops t ht
    · rw [ht]
      exact hs
  intro s a r htake
  cases s with
  | nil =>
    cases htake
    exact hnone [] fun c hc => by cases hc
  | cons c s =>
    by_cases hopen : opens c
    · rw [takeOptional, if_pos hopen] at htake
      obtain ⟨p, rfl, hp⟩ := h s a r htake
      refine ⟨c :: p, rfl, fun t ht => ?_⟩
      rw [List.cons_append, takeOptional, if_pos hopen, hp t ht]
    · rw [takeOptional, if_neg hopen] at htake
      cases htake
      refine hnone (c :: s) fun c' hc => ?_
      cases hc
      exact hopen

theorem someDigits_map_local {α : Type} (f : List Nat → α) :
    Local fun s => (someDigits (takeDigits s).1).map fun ds => (f ds, (takeDigits s).2) := by
  have h := local_digits fun ds => (someDigits ds).map f
  simp only [Option.map_map] at h
  exact h

/-- The exponent that a run of digits gives after its sign. -/
def takePower (negative : Bool) (s : List Char) : Option (Int × List Char) :=
  (someDigits (takeDigits s).1).map fun ds =>
    (if negative then -(numeral ds : Int) else numeral ds, (takeDigits s).2)

theorem takeExponent?_cons (c : Char) (s : List Char) : takeExponent? (c :: s) =
    if c = '+' then takePower false s
    else if c = '-' then takePower true s
    else takePower false (c :: s) := by
  by_cases hplus : c = '+'
  · subst hplus
    simp only [takeExponent?, takePower]
    rcases takeDigits s with ⟨_ | ⟨d, ds⟩, after⟩ <;> rfl
  · by_cases hminus : c = '-'
    · subst hminus
      simp only [takeExponent?, takePower]
      rcases takeDigits s with ⟨_ | ⟨d, ds⟩, after⟩ <;> rfl
    · rw [if_neg hplus, if_neg hminus]
      unfold takeExponent? takePower
      split
      next negative rest hsign =>
        split at hsign
        next heq => exact absurd (List.cons.inj heq).1 hplus
        next heq => exact absurd (List.cons.inj heq).1 hminus
        next =>
          cases hsign
          rcases takeDigits (c :: s) with ⟨_ | ⟨d, ds⟩, after⟩ <;> rfl

theorem takeExponent?_local : Local takeExponent? := by
  have hpower (negative : Bool) : Local (takePower negative) := someDigits_map_local _
  intro s a r h
  cases s with
  | nil => cases h
  | cons c s =>
    rw [takeExponent?_cons] at h
    split at h
    next hplus =>
      obtain ⟨p, rfl, hp⟩ := hpower false s a r h
      refine ⟨c :: p, rfl, fun t ht => ?_⟩
      rw [List.cons_append, takeExponent?_cons, if_pos hplus, hp t ht]
    next hplus =>
      split at h
      next hminus =>
        obtain ⟨p, rfl, hp⟩ := hpower true s a r h
        refine ⟨c :: p, rfl, fun t ht => ?_⟩
        rw [List.cons_append, takeExponent?_cons, if_neg hplus, if_pos hminus, hp t ht]
      next hminus =>
        obtain ⟨p, hs, hp⟩ := hpower false (c :: s) a r h
        cases p with
        | nil => cases hp [] (.inl stops_nil)
        | cons c' p =>
          cases hs
          refine ⟨c :: p, rfl, fun t ht => ?_⟩
          rw [List.cons_append, takeExponent?_cons, if_neg hplus, if_neg hminus]
          exact hp t ht

/-- Takes the digits of a fraction. -/
def takeFraction (s : List Char) : Option (List Nat × List Char) :=
  (someDigits (takeDigits s).1).map fun ds => (ds, (takeDigits s).2)

/-- Takes the rest of a number after its digits: an exponent or nothing. -/
def takeScaled (negative : Bool) (whole fraction : List Nat) (s : List Char) :
    Option (Number.Spelling × List Char) :=
  takeOptional (fun c => c = 'e' ∨ c = 'E') none
      (fun s => takeExponent? s >>= fun x => some (some x.1, x.2)) s >>= fun exponent =>
    some (⟨negative, whole, fraction, exponent.1⟩, exponent.2)

theorem takeScaled_cons (negative : Bool) (whole fraction : List Nat) (c : Char) (s : List Char) :
    takeScaled negative whole fraction (c :: s) =
      if c = 'e' ∨ c = 'E' then takeExponent? s >>= fun x =>
        some (⟨negative, whole, fraction, some x.1⟩, x.2)
      else some (⟨negative, whole, fraction, none⟩, c :: s) := by
  rw [takeScaled, takeOptional]
  split
  · rw [Option.bind_eq_bind, Option.bind_eq_bind, Option.bind_eq_bind, Option.bind_assoc]
    rfl
  · rfl

theorem takeNumber?_eq (negative : Bool) (s : List Char) : takeNumber? negative s =
    takeWhole? s >>= fun whole =>
      takeOptional (· = '.') [] takeFraction whole.2 >>= fun fraction =>
        takeScaled negative whole.1 fraction.1 fraction.2 := by
  unfold takeNumber?
  refine congrArg (takeWhole? s >>= ·) (funext fun whole => ?_)
  obtain ⟨whole, s⟩ := whole
  cases s with
  | nil => rfl
  | cons c s =>
    by_cases hpoint : c = '.'
    · subst hpoint
      rw [takeOptional, if_pos rfl, takeFraction]
      dsimp only
      split
      next rest heq =>
        cases heq
        rcases takeDigits s with ⟨ds, after⟩
        cases ds with
        | nil => rfl
        | cons d ds =>
          cases after with
          | nil => rfl
          | cons c after => exact (takeScaled_cons negative whole (d :: ds) c after).symm
      next hother => exact absurd rfl (hother s)
    · rw [takeOptional, if_neg hpoint]
      dsimp only
      split
      next heq => exact absurd (List.cons.inj heq).1 hpoint
      next => exact (takeScaled_cons negative whole [] c s).symm

theorem takeNumber?_local (negative : Bool) : Local (takeNumber? negative) := by
  rw [funext (takeNumber?_eq negative)]
  exact takeWhole?_local.bind fun whole =>
    ((someDigits_map_local fun ds => ds).optional (by simp)).bind fun fraction =>
      ((takeExponent?_local.bind fun x => local_some (some x)).optional (by simp)).bind
        fun exponent => local_some _

-- A number that is taken is one by itself.
theorem exists_number {negative : Bool} {s r : List Char} {spelling : Number.Spelling}
    (h : takeNumber? negative s = some (spelling, r)) :
    ∃ p, s = p ++ r ∧ takeNumber? negative p = some (spelling, []) := by
  obtain ⟨p, hs, hp⟩ := takeNumber?_local negative s spelling r h
  exact ⟨p, hs, by simpa using hp [] (.inl stops_nil)⟩

theorem takeNumber?_append {negative : Bool} {p t : List Char} {spelling : Number.Spelling}
    (h : takeNumber? negative p = some (spelling, [])) (ht : Stops t) :
    takeNumber? negative (p ++ t) = some (spelling, t) := by
  obtain ⟨q, rfl, hq⟩ := takeNumber?_local negative p spelling [] h
  rw [List.append_nil]
  exact hq t (.inl ht)

theorem exists_digit {negative : Bool} {p r : List Char} {spelling : Number.Spelling}
    (h : takeNumber? negative p = some (spelling, r)) :
    ∃ c q, p = c :: q ∧ digit? c ≠ none := by
  cases p with
  | nil => cases h
  | cons c q =>
    refine ⟨c, q, rfl, fun hc => ?_⟩
    have hwhole : takeWhole? (c :: q) = none := by
      unfold takeWhole?
      rw [takeDigits_of_noDigit fun c' hc' => by cases hc'; exact hc]
    rw [takeNumber?_eq, hwhole] at h
    cases h

theorem isJsonBlank_of_digit {c : Char} (h : digit? c ≠ none) : isJsonBlank c = false := by
  refine Bool.eq_false_iff.mpr fun hblank => h ?_
  simp only [isJsonBlank, Bool.or_eq_true, beq_iff_eq] at hblank
  rcases hblank with ((rfl | rfl) | rfl) | rfl <;> decide

/-! ## 4. Strings -/

/-- What is taken of a string, up to its closing quote, does not depend on what follows. -/
def Closes (s : List Char) : Prop := ∀ body r, takeString? s = some (body, r) →
  ∃ p, s = p ++ r ∧ body.length < p.length ∧ ∀ t, takeString? (p ++ t) = some (body, t)

-- One unit of a string, and what is taken after it.
theorem Closes.front {q rest : List Char} (unit : Unit16) (hq : 0 < q.length)
    (hfront : ∀ t, takeString? (q ++ t) = (takeString? t).map fun x => (unit :: x.1, x.2))
    (h : Closes rest) : Closes (q ++ rest) := by
  intro body r htake
  rw [hfront] at htake
  obtain ⟨⟨body, r⟩, hrest, heq⟩ := Option.map_eq_some_iff.mp htake
  cases heq
  obtain ⟨p, rfl, hlength, hp⟩ := h body r hrest
  refine ⟨q ++ p, by rw [List.append_assoc], ?_, fun t => ?_⟩
  · simp only [List.length_append, List.length_cons]
    omega
  · rw [List.append_assoc, hfront, hp, Option.map_some]

theorem closes (s : List Char) : Closes s := by
  fun_induction takeString? s with
  | case1 rest =>
    intro body r h
    cases h
    exact ⟨['"'], rfl, Nat.zero_lt_one, fun t => takeString?.eq_1 t⟩
  | case2 a b c d rest ih =>
    cases hcode : hexCode? a b c d with
    | none =>
      intro body r h
      rw [takeString?, hcode] at h
      cases h
    | some code =>
      refine ih.front (q := ['\\', 'u', a, b, c, d]) (.escape code) (Nat.zero_lt_succ 5)
        fun t => ?_
      simp only [List.cons_append, List.nil_append, takeString?, hcode]
      cases takeString? t <;> rfl
  | case3 e rest hnot ih =>
    cases hescape : simpleEscape? e with
    | none =>
      intro body r h
      rw [takeString?.eq_3 e rest hnot, hescape] at h
      cases h
    | some c =>
      refine ih.front (q := ['\\', e]) (.char c) (Nat.zero_lt_succ 1) fun t => ?_
      have hu : e ≠ 'u' := by
        rintro rfl
        cases hescape
      rw [List.cons_append, List.cons_append, List.nil_append,
        takeString?.eq_3 e t fun _ _ _ _ _ h _ => hu h, hescape]
      cases takeString? t <;> rfl
  | case4 c rest hquote hu hescape hbad =>
    intro body r h
    rw [takeString?.eq_4 c rest hquote hu hescape, if_pos hbad] at h
    cases h
  | case5 c rest hquote hu hescape hgood ih =>
    refine ih.front (q := [c]) (.char c) Nat.zero_lt_one fun t => ?_
    have hbackslash : c ≠ '\\' := fun h => hgood (.inr h)
    rw [List.cons_append, List.nil_append, takeString?.eq_4 c t hquote
      (fun _ _ _ _ _ h _ => hbackslash h) (fun _ _ h _ => hbackslash h), if_neg hgood]
    cases takeString? t <;> rfl
  | case6 =>
    intro body r h
    cases h

theorem exists_string {s r : List Char} {body : Spelled} (h : takeString? s = some (body, r)) :
    ∃ p, s = p ++ r ∧ takeString? p = some (body, []) := by
  obtain ⟨p, hs, -, hp⟩ := closes s body r h
  exact ⟨p, hs, by simpa using hp []⟩

theorem takeString?_append {p : List Char} {body : Spelled} (h : takeString? p = some (body, []))
    (t : List Char) : takeString? (p ++ t) = some (body, t) := by
  obtain ⟨q, rfl, -, hq⟩ := closes p body [] h
  rw [List.append_nil]
  exact hq t

end RowStream.Json.Outline
