/-!
Decimal numbers as they are written: a sign, digits with at most one point, and a power of ten after
`e`. There are also names for what no digits can write: `inf`, `infinity` and `nan`, in any case.
-/

namespace TracingHeap.Decimal

/-- A number as it is written; a finite one is `digits * 10 ^ power`, with a sign. -/
inductive Number where
  | undefined
  | infinite (negative : Bool)
  | finite (negative : Bool) (digits : Nat) (power : Int)
  deriving DecidableEq, Inhabited

/-- A row of digits at the front of a text, and the rest of the text. -/
def digitsOf (text : List Char) : List Char × List Char :=
  (text.takeWhile Char.isDigit, text.dropWhile Char.isDigit)

/-- The number that a row of digits stands for. -/
def valueOf (digits : List Char) : Nat :=
  digits.foldl (fun value c => 10 * value + (c.toNat - 48)) 0

/-- A sign at the front of a text: is it a minus, and the rest of the text. -/
def signOf : List Char → Bool × List Char
  | '-' :: rest => (true, rest)
  | '+' :: rest => (false, rest)
  | text => (false, text)

/-- The power of ten that a text of the form `e` and a signed number adds; none if there is no text. -/
def exponent? : List Char → Option Int
  | [] => some 0
  | c :: rest =>
    if c == 'e' || c == 'E' then
      let (negative, rest) := signOf rest
      let (digits, rest) := digitsOf rest
      if digits.isEmpty || !rest.isEmpty then none
      else some (if negative then -(valueOf digits : Int) else valueOf digits)
    else none

/-- The point and the digits after it at the front of a text, and the rest of the text. -/
def fractionOf : List Char → List Char × List Char
  | '.' :: rest => digitsOf rest
  | text => ([], text)

/-- Powers of ten beyond this bound make no difference to a number that is not zero. -/
def farPower : Int := 5000

/-- The finite number of a row of digits, the last `places` of them after the point. A power that is
far off is brought nearer, which keeps the number out of range. -/
def finite (negative : Bool) (digits : List Char) (places : Nat) (power : Int) : Number :=
  let far := farPower + digits.length
  .finite negative (valueOf digits) (max (-far) (min far power) - places)

/-- The number that a text stands for. -/
def read? (text : String) : Option Number :=
  let (negative, rest) := signOf text.toList
  let name := String.ofList (rest.map Char.toLower)
  if name == "inf" || name == "infinity" then some (.infinite negative)
  else if name == "nan" then some .undefined
  else
    let (whole, rest) := digitsOf rest
    let (fraction, rest) := fractionOf rest
    if whole.isEmpty && fraction.isEmpty then none
    else (exponent? rest).map fun power => finite negative (whole ++ fraction) fraction.length power

end TracingHeap.Decimal
