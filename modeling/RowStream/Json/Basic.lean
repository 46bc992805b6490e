import RowStream.Binary.Basic

/-!
# JSON values

A number is kept in the narrowest of three forms: a non-negative integer below `2 ^ 64`, a negative
integer down to `-2 ^ 63`, or a finite 64-bit binary number.  The members of an object are listed
in increasing order of their keys, each key once.
-/

namespace RowStream

/-- A JSON number. -/
inductive Number
  /-- A non-negative integer. -/
  | natural (n : Fin UInt64.size)
  /-- The negative integer `-(m + 1)`. -/
  | negative (m : Fin 0x8000000000000000)
  /-- Every other number. -/
  | binary (x : Double)
deriving DecidableEq

/-- A JSON value. -/
inductive Json
  | null
  | bool (b : Bool)
  | number (n : Number)
  | string (s : String)
  | array (items : List Json)
  | object (members : List (String × Json))
deriving Inhabited

namespace Number

/-! ## 1. The value of a number -/

/-- The exact value if it is an integer. -/
def integer? : Number → Option Int
  | natural n => some (n.val : Int)
  | negative m => some (-((m.val : Int) + 1))
  | binary x => x.integer?

/-- The nearest signed integer of 128 bits. -/
def saturate (i : Int) : Int :=
  max (-0x80000000000000000000000000000000) (min i 0x7FFFFFFFFFFFFFFFFFFFFFFFFFFFFFFF)

/-- The signed integer of 128 bits that a number without a fraction is taken for.  Only a binary
number can lie past them. -/
def wide? : Number → Option Int
  | natural n => some (n.val : Int)
  | negative m => some (-((m.val : Int) + 1))
  | binary x => x.integer?.map saturate

/-- The nearest number of a format. -/
def toBinary (F : Binary.Format) : Number → Binary.Extended F
  | natural n => .ofInt F n.val
  | negative m => .ofInt F (-((m.val : Int) + 1))
  | binary x => x.convert F

/-- The nearest 64-bit number: a number that is one already is not rounded again. -/
def toDouble : Number → Double
  | natural n => .ofNat64 false n.val n.isLt
  | negative m => .ofNat64 true (m.val + 1) (Nat.lt_of_le_of_lt m.isLt (by decide))
  | binary x => x

/-- Numbers are compared within one form only: an integer and a binary number are never equal. -/
def same : Number → Number → Bool
  | natural n, natural n' => n == n'
  | negative m, negative m' => m == m'
  | binary x, binary y => x.sameValue y
  | _, _ => false

end Number

/-! ## 2. Members of an object -/

namespace Members

variable {α : Type}

/-- Puts a value under a key, in place of the value that the key had. -/
def insert (key : String) (value : α) : List (String × α) → List (String × α)
  | [] => [(key, value)]
  | (k, v) :: rest =>
    if key < k then (key, value) :: (k, v) :: rest
    else if key = k then (key, value) :: rest
    else (k, v) :: insert key value rest

/-- The value under a key. -/
def get? (key : String) (members : List (String × α)) : Option α :=
  (members.find? fun member => member.1 == key).map (·.2)

/-- The members with their keys in increasing order, of equal keys the last. -/
def ofList (members : List (String × α)) : List (String × α) :=
  members.foldl (fun sorted member => insert member.1 member.2 sorted) []

end Members

namespace Json

/-- The text of a string. -/
def asString? : Json → Option String
  | string s => some s
  | _ => none

/-- A number as a 64-bit binary number. -/
def asDouble? : Json → Option Double
  | number n => some n.toDouble
  | _ => none

end Json
end RowStream
