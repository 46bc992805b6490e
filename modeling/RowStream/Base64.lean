/-!
# Base64

The standard alphabet with padding.  Every byte string has one text, and a text that is not the
text of some byte string is refused with the first thing wrong with it: texts are read four
symbols at a time, and only the last group may hold padding.
-/

namespace RowStream.Base64

-- Powers here are those of the core library, whatever else is imported.
attribute [local instance (high)] instPowNat

/-! ## 1. Symbols -/

/-- The padding byte, `=`. -/
def padding : UInt8 := 61

/-- The symbol of a six-bit value. -/
def symbol (v : Nat) : UInt8 :=
  if v < 26 then UInt8.ofNat (v + 65)
  else if v < 52 then UInt8.ofNat (v - 26 + 97)
  else if v < 62 then UInt8.ofNat (v - 52 + 48)
  else if v = 62 then 43 else 47

/-- The six-bit value of a symbol. -/
def value? (b : UInt8) : Option Nat :=
  let n := b.toNat
  if 65 ≤ n ∧ n ≤ 90 then some (n - 65)
  else if 97 ≤ n ∧ n ≤ 122 then some (n - 97 + 26)
  else if 48 ≤ n ∧ n ≤ 57 then some (n - 48 + 52)
  else if n = 43 then some 62
  else if n = 47 then some 63
  else none

theorem value?_symbol : ∀ v < 64, value? (symbol v) = some v := by decide

theorem symbol_of_value? {b : UInt8} {v : Nat} (h : value? b = some v) : symbol v = b ∧ v < 64 := by
  have all : ∀ n : Fin 256, ∀ v, value? (UInt8.ofNat n.val) = some v →
      symbol v = UInt8.ofNat n.val ∧ v < 64 := by
    intro n v hv
    have : ∀ n : Fin 256, ∀ w ∈ value? (UInt8.ofNat n.val),
        symbol w = UInt8.ofNat n.val ∧ w < 64 := by decide +kernel
    exact this n v hv
  have := all ⟨b.toNat, b.toNat_lt⟩ v (by simpa using h)
  simpa using this

/-! ## 2. Writing -/

/-- The symbols of a byte string. -/
def encodeBytes : List UInt8 → List UInt8
  | [] => []
  | [a] =>
    let word := a.toNat * 16
    [symbol (word / 64), symbol (word % 64), padding, padding]
  | [a, b] =>
    let word := (a.toNat * 256 + b.toNat) * 4
    [symbol (word / 4096), symbol (word / 64 % 64), symbol (word % 64), padding]
  | a :: b :: c :: rest =>
    let word := (a.toNat * 256 + b.toNat) * 256 + c.toNat
    symbol (word / 262144) :: symbol (word / 4096 % 64) :: symbol (word / 64 % 64) ::
      symbol (word % 64) :: encodeBytes rest

/-- The text of a byte string. -/
def encode (bytes : List UInt8) : String :=
  String.ofList ((encodeBytes bytes).map fun b => Char.ofNat b.toNat)

/-! ## 3. Reading -/

/-- Why a text denotes no byte string; offsets count bytes of the text. -/
inductive Fault
  | symbol (byte : UInt8) (offset : Nat)
  | length (n : Nat)
  | padding
  | lastSymbol (byte : UInt8) (offset : Nat)
deriving DecidableEq

/-- The text of a fault. -/
def Fault.message : Fault → String
  | symbol byte offset =>
    "Invalid symbol " ++ Nat.repr byte.toNat ++ ", offset " ++ Nat.repr offset ++ "."
  | length n => "Invalid input length: " ++ Nat.repr n
  | padding => "Invalid padding"
  | lastSymbol byte offset =>
    "Invalid last symbol " ++ Nat.repr byte.toNat ++ ", offset " ++ Nat.repr offset ++ "."

/-- The value of the symbol at an offset. -/
def valueAt (offset : Nat) (b : UInt8) : Except Fault Nat :=
  match value? b with
  | some v => .ok v
  | none => .error (.symbol b offset)

/-- The symbols of the last group, which may end in padding from its third place on. -/
def lastValues (offset place : Nat) : List UInt8 → Except Fault (List Nat)
  | [] => .ok []
  | b :: rest =>
    if b = padding then
      if place < 2 then .error (.symbol b (offset + place))
      else if rest.all (· = padding) then .ok []
      else .error (.symbol padding (offset + place))
    else do
      let v ← valueAt (offset + place) b
      let vs ← lastValues offset (place + 1) rest
      return v :: vs

/-- The bytes of the last group, of one to four bytes of text. -/
def decodeLast (offset : Nat) (group : List UInt8) : Except Fault (List UInt8) := do
  let values ← lastValues offset 0 group
  if values.length < 2 then throw (.length (offset + values.length))
  if group.length ≠ 4 then throw .padding
  let bytes := values.length * 6 / 8
  let word := values.foldl (fun word v => word * 64 + v) 0
  -- The bits past the last whole byte have to be zero, or two texts would have the same bytes.
  let spare := 2 ^ (values.length * 6 - bytes * 8)
  if word % spare ≠ 0 then
    throw (.lastSymbol (group.getD (values.length - 1) 0) (offset + values.length - 1))
  return (List.range bytes).map fun i =>
    UInt8.ofNat (word / spare / 256 ^ (bytes - 1 - i) % 256)

/-- The bytes of a text from an offset on. -/
def decodeFrom (offset : Nat) : List UInt8 → Except Fault (List UInt8)
  | [] => .ok []
  | a :: b :: c :: d :: e :: rest => do
    let w ← valueAt offset a
    let x ← valueAt (offset + 1) b
    let y ← valueAt (offset + 2) c
    let z ← valueAt (offset + 3) d
    let word := ((w * 64 + x) * 64 + y) * 64 + z
    let more ← decodeFrom (offset + 4) (e :: rest)
    return UInt8.ofNat (word / 65536) :: UInt8.ofNat (word / 256 % 256) ::
      UInt8.ofNat (word % 256) :: more
  | group => decodeLast offset group

/-- The byte string that the bytes of a text denote.  A foreign byte that stands alone in the last
group is reported before anything else. -/
def decodeBytes (text : List UInt8) : Except Fault (List UInt8) :=
  match text.getLast? with
  | some last =>
    if text.length % 4 = 1 ∧ last ≠ padding ∧ value? last = none then
      .error (.symbol last (text.length - 1))
    else decodeFrom 0 text
  | none => .ok []

/-- The byte string that a text denotes. -/
def decode (text : String) : Except Fault (List UInt8) := decodeBytes text.toUTF8.data.toList

example : encode [1, 2] = "AQI=" := by decide +kernel
example : (decode "AQI=").toOption = some [1, 2] := by decide +kernel
example : (decode "AQJ=").toOption = none := by decide +kernel

end RowStream.Base64
