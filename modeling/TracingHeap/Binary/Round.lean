/-!
Rounding of ratios to binary fractions with a bounded number of digits. A ratio is rounded to the
nearest multiple of a power of two that leaves the wanted number of digits; of two equally near ones
the even one is taken.
-/

namespace TracingHeap.Binary

/-- How many binary digits a fraction may have and which powers of two may follow them. -/
structure Format where
  /-- The greatest number of binary digits. -/
  precision : Nat
  /-- The least power of two. -/
  least : Int
  /-- The greatest power of two. -/
  greatest : Int

/-- Fractions of 24 digits that take 32 bits. -/
def single : Format := ⟨24, -149, 104⟩

/-- Fractions of 53 digits that take 64 bits. -/
def double : Format := ⟨53, -1074, 971⟩

/-- The whole number nearest to a ratio, and the even one of two equally near ones. -/
def roundHalfEven (numerator denominator : Nat) : Nat :=
  let quotient := numerator / denominator
  let twice := 2 * (numerator % denominator)
  if twice < denominator ∨ (twice = denominator ∧ quotient % 2 = 0) then quotient else quotient + 1

/-- A ratio divided by a power of two. -/
def scaleDown (numerator denominator : Nat) (power : Int) : Nat × Nat :=
  if 0 ≤ power then (numerator, denominator * Nat.pow 2 power.toNat)
  else (numerator * Nat.pow 2 (-power).toNat, denominator)

/-- The power of two that leaves `precision` digits of a positive ratio, as far as the format has it. -/
def Format.powerFor (format : Format) (numerator denominator : Nat) : Int :=
  let low : Int := (Nat.log2 numerator : Int) - Nat.log2 denominator - format.precision
  let (n, d) := scaleDown numerator denominator low
  max format.least (if d * Nat.pow 2 format.precision ≤ n then low + 1 else low)

/-- A positive ratio rounded to `digits * 2 ^ power`, or nothing if it is beyond the format. -/
def Format.nearest (format : Format) (numerator denominator : Nat) : Option (Nat × Int) :=
  let power := format.powerFor numerator denominator
  let (n, d) := scaleDown numerator denominator power
  let digits := roundHalfEven n d
  let (digits, power) :=
    if digits = Nat.pow 2 format.precision then (Nat.pow 2 (format.precision - 1), power + 1)
    else (digits, power)
  if format.greatest < power then none else some (digits, power)

end TracingHeap.Binary
