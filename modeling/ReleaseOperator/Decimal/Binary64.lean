/-!
# Binary floating point numbers of 64 bits

A finite double is `m · 2 ^ q` with a sign. The module rounds an exact quotient
of naturals to the nearest double, a tie going to the even neighbour, and packs
the result into its 64 bits. Products and quotients of doubles are the rounded
exact ones, so all arithmetic is on naturals and nothing is left to the machine.
-/

namespace ReleaseOperator

/-- The magnitude `mantissa · 2 ^ exponent` of a finite double. -/
structure Binary64.Magnitude where
  mantissa : Nat
  exponent : Int
  deriving Repr, DecidableEq

namespace Binary64

def signBit : Nat := Nat.pow 2 63

def infinityBits : Nat := 0x7FF * Nat.pow 2 52

/-- A numerator and a denominator of `a · 2 ^ e`. -/
def scale (num den : Nat) (e : Int) : Nat × Nat :=
  if 0 ≤ e then (num * Nat.pow 2 e.toNat, den) else (num, den * Nat.pow 2 (-e).toNat)

/-- The quotient rounded to a natural, a tie going to the even neighbour. -/
def roundDivEven (num den : Nat) : Nat :=
  let d : Nat := num / den
  let r : Nat := num % den
  if 2 * r < den then d
  else if den < 2 * r then d + 1
  else if d % 2 = 0 then d else d + 1

/-- The double nearest to a quotient of naturals, `none` when it is too large.
The exponent is the least that keeps the mantissa below `2 ^ 53`, but never
below `-1074`. -/
def nearest? (num den : Nat) : Option Magnitude :=
  if num = 0 then some ⟨0, -1074⟩
  else
    let guess : Int := (num.log2 : Int) - (den.log2 : Int) - 53
    let (n₀, d₀) := scale num den (-guess)
    let q₀ := if Nat.pow 2 53 * d₀ ≤ n₀ then guess + 1 else guess
    let q := max q₀ (-1074)
    let (n, d) := scale num den (-q)
    let m := roundDivEven n d
    let (m, q) := if m = Nat.pow 2 53 then (Nat.pow 2 52, q + 1) else (m, q)
    if 971 < q then none else some ⟨m, q⟩

def Magnitude.bits (x : Magnitude) : Nat :=
  if x.mantissa < Nat.pow 2 52 then x.mantissa
  else (x.exponent + 1075).toNat * Nat.pow 2 52 + (x.mantissa - Nat.pow 2 52)

/-- The magnitude that finite bits stand for; the sign is left out. -/
def Magnitude.ofBits (bits : Nat) : Magnitude :=
  let b : Nat := bits % signBit
  let e : Nat := b / Nat.pow 2 52
  let f : Nat := b % Nat.pow 2 52
  if e = 0 then ⟨f, -1074⟩ else ⟨f + Nat.pow 2 52, (e : Int) - 1075⟩

def Magnitude.ratio (x : Magnitude) : Nat × Nat :=
  scale x.mantissa 1 x.exponent

/-- The bits of the double nearest to a signed quotient; `none` when it is too
large. -/
def ofRatio? (negative : Bool) (num den : Nat) : Option Nat :=
  (nearest? num den).map fun x => (if negative then signBit else 0) + x.bits

def mul? (x y : Magnitude) : Option Magnitude :=
  let (a, b) := x.ratio
  let (c, d) := y.ratio
  nearest? (a * c) (b * d)

def div? (x y : Magnitude) : Option Magnitude :=
  let (a, b) := x.ratio
  let (c, d) := y.ratio
  nearest? (a * d) (b * c)

def pow10? (n : Nat) : Option Magnitude :=
  nearest? (Nat.pow 10 n) 1

def decimalRatio (digits : Nat) (exponent : Int) : Nat × Nat :=
  if 0 ≤ exponent then (digits * Nat.pow 10 exponent.toNat, 1)
  else (digits, Nat.pow 10 (-exponent).toNat)

/-- The bits of the double nearest to a signed decimal. Exponents that are out of
reach of any double are decided without computing their power. -/
def ofDecimal? (negative : Bool) (digits : Nat) (exponent : Int) : Option Nat :=
  let sign := if negative then signBit else 0
  if digits = 0 then some sign
  else if 400 < exponent + ((digits.log2 / 4 : Nat) : Int) then none
  else if exponent + (digits.log2 : Int) < -400 then some sign
  else
    let (num, den) := decimalRatio digits exponent
    ofRatio? negative num den

def isFinite (bits : Nat) : Bool :=
  bits % signBit < infinityBits

def isNegative (bits : Nat) : Bool :=
  signBit ≤ bits

end Binary64

end ReleaseOperator
