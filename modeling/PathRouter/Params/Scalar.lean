import PathRouter.Params

/-!
Parameter values read as numbers, truth values and characters. Numerals are decimal, with an
optional sign, and the first fault from the left is the one reported.
-/

namespace PathRouter

inductive ScalarError
  | emptyNumeral
  | invalidDigit
  | tooLarge
  | tooSmall
  | notBool
  | emptyChar
  | manyChars
  deriving DecidableEq, Repr

def ScalarError.message : ScalarError → String
  | .emptyNumeral => "cannot parse integer from empty string"
  | .invalidDigit => "invalid digit found in string"
  | .tooLarge => "number too large to fit in target type"
  | .tooSmall => "number too small to fit in target type"
  | .notBool => "provided string was not `true` or `false`"
  | .emptyChar => "cannot parse char from empty string"
  | .manyChars => "too many characters in string"

/-- A range of integers, ends included. -/
structure IntRange where
  least : Int
  greatest : Int
  deriving DecidableEq, Repr

namespace IntRange

def unsigned (bits : Nat) : IntRange := ⟨0, 1 <<< bits - 1⟩

def signed (bits : Nat) : IntRange := ⟨-(1 <<< (bits - 1)), 1 <<< (bits - 1) - 1⟩

def hasSign (range : IntRange) : Bool := decide (range.least < 0)

end IntRange

def digitValue? (c : Char) : Option Nat :=
  if '0' ≤ c ∧ c ≤ '9' then some (c.toNat - '0'.toNat) else none

/-- Reads digits onto a value, away from zero in the direction of `sign`, as long as the value stays
in the range. -/
def readDigits (range : IntRange) (sign : Int) : Int → List Char → Except ScalarError Int
  | value, [] => .ok value
  | value, c :: rest =>
    match digitValue? c with
    | none => .error .invalidDigit
    | some digit =>
      let next := value * 10 + sign * digit
      if range.greatest < next then .error .tooLarge
      else if next < range.least then .error .tooSmall
      else readDigits range sign next rest

/-- Reads an integer of the range. A sign alone is not a numeral, and a minus sign belongs to ranges
with negative numbers only. -/
def readInt (range : IntRange) : List Char → Except ScalarError Int
  | [] => .error .emptyNumeral
  | ['+'] | ['-'] => .error .invalidDigit
  | '+' :: digits => readDigits range 1 0 digits
  | '-' :: digits =>
    if range.hasSign then readDigits range (-1) 0 digits else .error .invalidDigit
  | digits => readDigits range 1 0 digits

def readBool (text : List Char) : Except ScalarError Bool :=
  if text = "true".toList then .ok true
  else if text = "false".toList then .ok false
  else .error .notBool

def readChar : List Char → Except ScalarError Char
  | [] => .error .emptyChar
  | [c] => .ok c
  | _ => .error .manyChars

def Params.read? {β : Type} (params : Params) (name : List Char)
    (read : List Char → Except ScalarError β) : Option (Except ScalarError β) :=
  (params.get? name).map read

end PathRouter
