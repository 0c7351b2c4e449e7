import TracingHeap.Binary.Round
import TracingHeap.Decimal

/-!
Single fractions: signed binary fractions of 24 digits, infinities and the undefined value, kept as
exact numbers. `Single.text` writes the shortest decimal that reads back as the same value, the nearest
of those, and away from zero where two are equally near; `Single.layout` says which decimals are written with an exponent.
-/

namespace TracingHeap.Binary

/-- A single fraction; a finite one is `digits * 2 ^ power`, with a sign. -/
inductive Single where
  | undefined
  | infinite (negative : Bool)
  | finite (negative : Bool) (digits : Nat) (power : Int)
  deriving DecidableEq, Inhabited

/-- A binary fraction as a ratio. -/
def ratio (digits : Nat) (power : Int) : Nat × Nat :=
  if 0 ≤ power then (digits * Nat.pow 2 power.toNat, 1) else (digits, Nat.pow 2 (-power).toNat)

/-- A decimal `digits * 10 ^ power` as a ratio. -/
def decimalRatio (digits : Nat) (power : Int) : Nat × Nat :=
  if 0 ≤ power then (digits * Nat.pow 10 power.toNat, 1) else (digits, Nat.pow 10 (-power).toNat)

namespace Single

/-- The single fraction nearest to a ratio. -/
def ofRatio (negative : Bool) (numerator denominator : Nat) : Single :=
  if numerator = 0 then .finite negative 0 single.least
  else match single.nearest numerator denominator with
    | some (digits, power) => .finite negative digits power
    | none => .infinite negative

/-- The single fraction nearest to a decimal. -/
def ofDecimal (negative : Bool) (digits : Nat) (power : Int) : Single :=
  let (n, d) := decimalRatio digits power
  ofRatio negative n d

/-- The single fraction that a written number stands for. -/
def ofNumber : Decimal.Number → Single
  | .undefined => .undefined
  | .infinite negative => .infinite negative
  | .finite negative digits power => ofDecimal negative digits power

/-- A written number rounded to a double fraction first, and that to a single one. -/
def ofNumberTwice : Decimal.Number → Single
  | .undefined => .undefined
  | .infinite negative => .infinite negative
  | .finite negative digits power =>
    let (n, d) := decimalRatio digits power
    if n = 0 then .finite negative 0 single.least
    else match double.nearest n d with
      | some (m, e) => let (n, d) := ratio m e; ofRatio negative n d
      | none => .infinite negative

/-- Is this a fraction above zero and at most one? -/
def isProper : Single → Bool
  | .finite false digits power => let (n, d) := ratio digits power; 0 < n && n ≤ d
  | _ => false

/-- A fraction of a number: the number and the product are rounded to double fractions, and the
product then loses its part after the point. -/
def share (value : Single) (whole : Nat) : Nat :=
  match value with
  | .finite false digits power =>
    if whole = 0 ∨ digits = 0 then 0
    else match double.nearest whole 1 with
      | none => 0
      | some (m, e) =>
        let (n, d) := ratio (m * digits) (e + power)
        match double.nearest n d with
        | none => 0
        | some (m, e) => let (n, d) := ratio m e; n / d
  | _ => 0

/-- The number of decimal digits; zero has none. -/
def digitCount (n : Nat) : Nat := if n = 0 then 0 else (Nat.toDigits 10 n).length

/-- The place of the first digit of a positive ratio: the greatest `k` with `10 ^ k` at most the ratio. -/
def leadingPlace (numerator denominator : Nat) : Int :=
  if denominator ≤ numerator then digitCount (numerator / denominator) - 1
  else -(digitCount ((denominator + numerator - 1) / numerator - 1) : Int)

/-- Of the two decimals with the last digit at `place` around the ratio, the nearer one among those
that read back as the value; halfway between them the upper one. -/
def onGrid? (value : Single) (numerator denominator : Nat) (place : Int) : Option Nat :=
  let (n, d) :=
    if 0 ≤ place then (numerator, denominator * Nat.pow 10 place.toNat)
    else (numerator * Nat.pow 10 (-place).toNat, denominator)
  let low := n / d
  let readsBack := fun digits => ofDecimal false digits place == value
  if readsBack low && (2 * (n % d) < d || !readsBack (low + 1)) then some low
  else if readsBack (low + 1) then some (low + 1)
  else none

/-- The digits of the shortest decimal that reads back as the positive value, with the place of the
last one. No single fraction needs more than nine digits. -/
def shortest (value : Single) (numerator denominator : Nat) : Nat × Int :=
  let top := leadingPlace numerator denominator
  let found := (List.range 9).findSome? fun (count : Nat) =>
    (onGrid? value numerator denominator (top - count)).map fun digits => (digits, top - count)
  found.getD (numerator / denominator, 0)

/-- Which decimals are written without an exponent. -/
structure Layout where
  /-- The least place of the first digit. -/
  lowest : Int
  /-- The place of the first digit from which on an exponent is written. -/
  exponentFrom : Int

/-- From a ten-thousandth on and below `10 ^ 16` no exponent is written. -/
def layout : Layout := ⟨-4, 16⟩

/-- The digits without the zeros at the end. -/
def trimZeros (digits : List Char) : List Char :=
  (digits.reverse.dropWhile (· == '0')).reverse

/-- A decimal with its first digit at `place`, in the layout's form; without an exponent it has at
least one digit after the point. -/
def writeDecimal (form : Layout) (digits : List Char) (place : Int) : String :=
  if form.lowest ≤ place ∧ place < form.exponentFrom then
    let digits := if place < 0 then List.replicate (-place).toNat '0' ++ digits else digits
    let whole := (max place 0).toNat + 1
    let front := (digits.take whole) ++ List.replicate (whole - digits.length) '0'
    let back := digits.drop whole
    String.ofList (front ++ '.' :: (if back.isEmpty then ['0'] else back))
  else
    let back := digits.drop 1
    String.ofList (digits.take 1 ++ (if back.isEmpty then [] else '.' :: back)) ++
      "e" ++ toString place

/-- The text of a single fraction. -/
def text : Single → String
  | .undefined => "NaN"
  | .infinite negative => if negative then "-inf" else "inf"
  | .finite negative digits power =>
    let sign := if negative then "-" else ""
    if digits = 0 then sign ++ writeDecimal layout ['0'] 0
    else
      let value := Single.finite false digits power
      let (n, d) := ratio digits power
      let (whole, last) := shortest value n d
      let chars := Nat.toDigits 10 whole
      sign ++ writeDecimal layout (trimZeros chars) (last + chars.length - 1)

end Single

end TracingHeap.Binary
