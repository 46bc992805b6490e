import RowStream.Text.Blank
import RowStream.Text.Digit
import RowStream.Time.Basic

/-!
# Times as text

Times are written in the profile of ISO 8601 for the internet, with as many fraction digits, in
threes, as are needed.  The reader is laxer: parts need no padding, blanks may stand between them,
years outside the four digits carry a sign, and the colon of the offset may be missing.
-/

namespace RowStream.Time

open Text

-- Powers here are those of the core library, whatever else is imported.
attribute [local instance (high)] instPowNat

/-! ## 1. Writing -/

/-- The last `width` decimal digits of a number. -/
def fixedDigits : Nat → Nat → List Char
  | 0, _ => []
  | width + 1, n => fixedDigits width (n / 10) ++ [Nat.digitChar (n % 10)]

/-- A natural number in decimal with at least `width` digits. -/
def padded (width n : Nat) : List Char :=
  let digits := Nat.toDigits 10 n
  List.replicate (width - digits.length) '0' ++ digits

/-- A year: four digits from 0 to 9999, else a sign and at least four digits. -/
def yearChars (year : Int) : List Char :=
  if 0 ≤ year ∧ year ≤ 9999 then fixedDigits 4 year.toNat
  else (if year < 0 then '-' else '+') :: padded 4 year.natAbs

/-- The fraction of a second: nothing if zero, else three, six or nine digits. -/
def fractionChars (nanos : Nat) : List Char :=
  if nanos = 0 then []
  else if nanos % 1000000 = 0 then '.' :: fixedDigits 3 (nanos / 1000000)
  else if nanos % 1000 = 0 then '.' :: fixedDigits 6 (nanos / 1000)
  else '.' :: fixedDigits 9 nanos

/-- An offset as signed hours and minutes. -/
def offsetChars (offset : Int) : List Char :=
  let minutes := offset.natAbs / 60
  (if offset < 0 then '-' else '+') :: (fixedDigits 2 (minutes / 60) ++
    ':' :: fixedDigits 2 (minutes % 60))

/-- The characters of a time. -/
def chars (t : Time) : List Char :=
  let date := t.date
  let second := t.secondOfDay
  let leap := if 1000000000 ≤ t.nanos then 1 else 0
  yearChars date.year ++ '-' :: fixedDigits 2 date.month ++ '-' :: fixedDigits 2 date.day ++
    'T' :: fixedDigits 2 (second / 3600) ++ ':' :: fixedDigits 2 (second / 60 % 60) ++
    ':' :: fixedDigits 2 (second % 60 + leap) ++
    fractionChars (t.nanos % 1000000000) ++ offsetChars t.offset

/-- The text of a time. -/
def text (t : Time) : String := String.ofList t.chars

/-! ## 2. Faults of a text -/

/-- Why a text is not a time. -/
inductive Fault
  | outOfRange
  | impossible
  | invalid
  | tooShort
  | tooLong
deriving DecidableEq, Repr

/-- The text of a fault. -/
def Fault.message : Fault → String
  | outOfRange => "input is out of range"
  | impossible => "no possible date and time matching input"
  | invalid => "input contains invalid characters"
  | tooShort => "premature end of input"
  | tooLong => "trailing input"

/-! ## 3. Parts of a text -/

/-- A reader takes a part off the front of a text. -/
abbrev Reader := StateT (List Char) (Except Fault)

namespace Reader

/-- Skips blanks. -/
def blanks : Reader Unit := modify dropBlank

/-- Takes a character that has to be there. -/
def char (expected : Char) : Reader Unit := do
  match ← get with
  | [] => throw .tooShort
  | c :: rest => if c = expected then set rest else throw .invalid

/-- Takes a number of at least one and at most `width` digits. -/
def digits (width : Nat) : Reader (List Nat) := do
  let s ← get
  match takeDigits (s.take width) with
  | ([], _) => throw (if s.isEmpty then .tooShort else .invalid)
  | (ds, _) => set (s.drop ds.length); return ds

/-- Takes a number of at most two digits, after blanks, that lies in a range. -/
def number (low high : Nat) : Reader Nat := do
  blanks
  let n := numeral (← digits 2)
  if low ≤ n ∧ n ≤ high then return n else throw .outOfRange

/-- Takes a year: up to four digits, or a sign and any number of digits. -/
def year : Reader Int := do
  blanks
  let s ← get
  let (signed, magnitude) ← match s with
    | '-' :: rest => do set rest; pure (true, ← digits rest.length)
    | '+' :: rest => do set rest; pure (false, ← digits rest.length)
    | _ => do pure (false, ← digits 4)
  let y : Int := if signed then -(numeral magnitude : Int) else numeral magnitude
  if -2147483648 ≤ y ∧ y ≤ 2147483647 then return y else throw .outOfRange

/-- Takes the fraction of a second in nanoseconds, digits past the ninth having no effect. -/
def fraction : Reader Nat := do
  match ← get with
  | '.' :: rest =>
    set rest
    let ds ← digits 9
    modify fun s => (takeDigits s).2
    return numeral ds * 10 ^ (9 - ds.length)
  | _ => return 0

/-- Takes two digits, the first of which is at most `top`. -/
def twoDigits (top : Nat) : Reader Nat := do
  match ← get with
  | [] => throw .tooShort
  | [c] => throw (if c.toNat < 128 then .tooShort else .invalid)
  | a :: b :: rest =>
    match digit? a, digit? b with
    | some tens, some ones =>
      if top < tens then throw .outOfRange
      set rest
      return tens * 10 + ones
    | _, _ => throw .invalid

/-- Takes an offset in seconds: `Z`, `UTC`, or signed hours and minutes. -/
def offset : Reader Int := do
  match ← get with
  | [] => throw .tooShort
  | c :: rest =>
    if (c :: rest.take 2).map Char.toUpper = ['U', 'T', 'C'] then
      set (rest.drop 2)
      return 0
    if c = 'Z' ∨ c = 'z' then
      set rest
      return 0
    if c = '+' ∨ c = '-' ∨ c = '\u2212' then
      set rest
      let hours ← twoDigits 9
      modify fun s => s.dropWhile fun c => c = ':' ∨ isBlank c
      let minutes ← twoDigits 5
      let seconds : Int := (hours * 3600 + minutes * 60 : Nat)
      return if c = '+' then seconds else -seconds
    throw .invalid

end Reader

/-! ## 4. Reading -/

/-- What a text says about a time, before the calendar is asked. -/
structure Fields where
  year : Int
  month : Nat
  day : Nat
  hour : Nat
  minute : Nat
  second : Nat
  nanos : Nat
  offset : Int

/-- Takes the fields of a time. -/
def readFields : Reader Fields := do
  let year ← Reader.year
  Reader.blanks
  Reader.char '-'
  let month ← Reader.number 1 12
  Reader.blanks
  Reader.char '-'
  let day ← Reader.number 1 31
  match ← get with
  | [] => throw .tooShort
  | c :: rest => if c = 'T' ∨ c = 't' ∨ c = ' ' then set rest else throw .invalid
  let hour ← Reader.number 0 23
  Reader.blanks
  Reader.char ':'
  let minute ← Reader.number 0 59
  Reader.blanks
  Reader.char ':'
  let second ← Reader.number 0 60
  let nanos ← Reader.fraction
  Reader.blanks
  let offset ← Reader.offset
  return ⟨year, month, day, hour, minute, second, nanos, offset⟩

/-- The time with the given fields: the calendar has the date, the offset is less than a day, and
the instant is in the supported range.  The sixtieth second is a leap second. -/
def ofFields (f : Fields) : Except Fault Time := do
  let some date := Date.mk? f.year f.month f.day | throw .outOfRange
  let localSeconds := date.toDays * 86400 +
    (f.hour * 3600 + f.minute * 60 + min f.second 59 : Nat)
  if localSeconds < firstSecond ∨ lastSecond < localSeconds then throw .outOfRange
  if f.offset ≤ -86400 ∨ 86400 ≤ f.offset then throw .outOfRange
  let seconds := localSeconds - f.offset
  if seconds < firstSecond ∨ lastSecond < seconds then throw .impossible
  -- A leap second is kept in the second before it.
  return ⟨seconds, f.nanos + (if f.second = 60 then 1000000000 else 0), f.offset⟩

/-- The time that a text denotes. -/
def read (s : List Char) : Except Fault Time := do
  let (fields, rest) ← readFields.run s
  if ¬ (dropBlank rest).isEmpty then throw .tooLong
  ofFields fields

/-- The time that a text denotes. -/
def ofText (s : String) : Except Fault Time := read s.toList

example : text ⟨1420160645, 123000000, 7200⟩ = "2015-01-02T03:04:05.123+02:00" := by
  decide +kernel
example : text ⟨-62198755200, 0, 0⟩ = "-0001-01-01T00:00:00+00:00" := by decide +kernel
example : (ofText "2016-12-31 23:59:60z").toOption = some ⟨1483228799, 1000000000, 0⟩ := by
  decide +kernel

end RowStream.Time
