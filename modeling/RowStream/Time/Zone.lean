import RowStream.Text.Digit

/-!
# Offsets in tagged times

The offset of a tagged time is `Z` or a sign, hours, a colon and minutes.  Each of the two numbers
may carry a sign of its own and any number of leading zeros; the hours are below 24, the minutes
below 60.
-/

namespace RowStream.Time.Zone

open Text

/-- The number that a non-empty run of digits denotes. -/
def natural? (s : List Char) : Option Int :=
  match takeDigits s with
  | (d :: ds, []) => some (numeral (d :: ds))
  | _ => none

/-- The integer that digits with an optional sign denote. -/
def integer? : List Char → Option Int
  | '+' :: s => natural? s
  | '-' :: s => (natural? s).map (- ·)
  | s => natural? s

/-- The text before the first colon and the text after it. -/
def splitColon? : List Char → Option (List Char × List Char)
  | [] => none
  | ':' :: rest => some ([], rest)
  | c :: rest => (splitColon? rest).map fun (hours, minutes) => (c :: hours, minutes)

/-- The seconds in hours and minutes. -/
def clock? (s : List Char) : Option Int := do
  let (hoursText, minutesText) ← splitColon? s
  let hours ← integer? hoursText
  let minutes ← integer? minutesText
  if 0 ≤ hours ∧ hours < 24 ∧ 0 ≤ minutes ∧ minutes < 60 then some (hours * 3600 + minutes * 60)
  else none

/-- The offset that a text denotes, in seconds. -/
def offset? : List Char → Option Int
  | ['Z'] => some 0
  | '+' :: rest => clock? rest
  | '-' :: rest => (clock? rest).map (- ·)
  | _ => none

example : offset? "-07:30".toList = some (-27000) := by decide +kernel
example : offset? "++5:00".toList = some 18000 := by decide +kernel
example : offset? "+24:00".toList = none := by decide +kernel

end RowStream.Time.Zone
