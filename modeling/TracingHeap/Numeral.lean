import TracingHeap.Word

/-!
Numerals: numbers written in decimal digits. One plus sign may stand in front of a word, and one sign in
front of a whole number; nothing else is a numeral, and neither is a word's number that does not fit in it.
-/

namespace TracingHeap.Numeral

/-- The value of a character that is one of the ten digits. -/
def digit? (c : Char) : Option Nat :=
  if '0' ≤ c ∧ c ≤ '9' then some (c.toNat - 48) else none

/-- The number that a row of digits stands for, read on from `value`. -/
def digits? (value : Nat) : List Char → Option Nat
  | [] => some value
  | c :: rest => (digit? c).bind fun d => digits? (10 * value + d) rest

/-- The digits of a numeral without its sign. -/
def unsigned : List Char → List Char
  | '+' :: rest => rest
  | chars => chars

/-- The number that a row of at least one digit stands for. -/
def natural? : List Char → Option Nat
  | [] => none
  | chars => digits? 0 chars

/-- The word that a text stands for. -/
def word? (text : String) : Option Word :=
  (natural? (unsigned text.toList)).bind fun n =>
    if n < UInt64.size then some (UInt64.ofNat n) else none

/-- The whole number that a text stands for. -/
def int? (text : String) : Option Int :=
  match text.toList with
  | '-' :: rest => (natural? rest).map fun n => -(n : Int)
  | chars => (natural? (unsigned chars)).map Int.ofNat

end TracingHeap.Numeral
