/-!
# Digits

Reading decimal and hexadecimal digits off the front of a text.
-/

namespace RowStream.Text

/-- The value of a decimal digit. -/
def digit? (c : Char) : Option Nat :=
  if '0' ≤ c ∧ c ≤ '9' then some (c.toNat - '0'.toNat) else none

/-- The value of a hexadecimal digit of either case. -/
def hexDigit? (c : Char) : Option Nat :=
  if '0' ≤ c ∧ c ≤ '9' then some (c.toNat - '0'.toNat)
  else if 'a' ≤ c ∧ c ≤ 'f' then some (c.toNat - 'a'.toNat + 10)
  else if 'A' ≤ c ∧ c ≤ 'F' then some (c.toNat - 'A'.toNat + 10)
  else none

/-- The leading decimal digits of a text and what follows them. -/
def takeDigits : List Char → List Nat × List Char
  | [] => ([], [])
  | c :: rest =>
    match digit? c with
    | some d => let (ds, after) := takeDigits rest; (d :: ds, after)
    | none => ([], c :: rest)

/-- The number that decimal digits denote. -/
def numeral (digits : List Nat) : Nat := digits.foldl (fun n d => n * 10 + d) 0

/-- A text does not go on with a digit. -/
def NoDigit (s : List Char) : Prop := ∀ c, s.head? = some c → digit? c = none

theorem noDigit_cons {c : Char} (rest : List Char) (h : digit? c = none) :
    NoDigit (c :: rest) := by
  intro c' heq
  cases heq
  exact h

theorem takeDigits_of_noDigit {s : List Char} (h : NoDigit s) : takeDigits s = ([], s) := by
  cases s with
  | nil => rfl
  | cons c s => simp only [takeDigits, h c rfl]

end RowStream.Text
