import ReleaseOperator.Decimal.Binary64

/-!
# Shortest decimals

The decimal with the fewest digits that reads back as a given double, and of
those the one nearest to it. A double owns the interval of reals that round to
it, its ends included when its mantissa is even. On the grid of decimals with
`n` significant digits only the two neighbours of the value can lie in that
interval before any other point does, so those two are tested for `n = 1, 2, …`.
-/

namespace ReleaseOperator.Decimal

open Binary64

/-- A decimal `digits · 10 ^ exponent`. -/
structure Scaled where
  digits : Nat
  exponent : Int
  deriving Repr, DecidableEq

def digitCount (n : Nat) : Nat :=
  (Nat.toDigits 10 n).length

/-- The largest `e` with `10 ^ e ≤ num / den`, for positive arguments. -/
def floorLog10 (num den : Nat) : Int :=
  if den ≤ num then (digitCount (num / den) : Int) - 1
  else
    let n := digitCount (den / num)
    if num * Nat.pow 10 (n - 1) = den then -((n : Int) - 1) else -(n : Int)

/-- The reals that round to a double: a lower and an upper end over one
denominator, and whether the ends belong to it. -/
structure Interval where
  low : Nat
  value : Nat
  high : Nat
  den : Nat
  closed : Bool

/-- The interval of a nonzero magnitude. Below the least mantissa of a binade the
doubles lie twice as dense, so the lower half-gap is halved there. -/
def Interval.ofMagnitude (x : Magnitude) : Interval :=
  let narrow := x.mantissa = Nat.pow 2 52 ∧ -1074 < x.exponent
  let low := if narrow then 4 * x.mantissa - 1 else 4 * x.mantissa - 2
  let (num, den) := scale 1 4 x.exponent
  ⟨low * num, 4 * x.mantissa * num, (4 * x.mantissa + 2) * num, den, x.mantissa % 2 = 0⟩

def Interval.contains (i : Interval) (num den : Nat) : Bool :=
  let a := num * i.den
  if i.closed then i.low * den ≤ a && a ≤ i.high * den
  else i.low * den < a && a < i.high * den

/-- The point of the grid of step `10 ^ e` that lies in the interval, the nearer
of the two neighbours of the value when both do, and the even one on a tie. -/
def Interval.onGrid? (i : Interval) (e : Int) : Option Nat :=
  let (unitNum, unitDen) := decimalRatio 1 e
  let below := i.value * unitDen / (i.den * unitNum)
  let inside (d : Nat) : Bool := i.contains (d * unitNum) unitDen
  let above := below + 1
  match decide (0 < below) && inside below, inside above with
  | true, true =>
    let twice := 2 * i.value * unitDen
    let middle := (2 * below + 1) * (i.den * unitNum)
    if twice < middle then some below
    else if middle < twice then some above
    else if below % 2 = 0 then some below else some above
  | true, false => some below
  | false, true => some above
  | false, false => none

/-- The first grid with a hit, from `n` digits on. -/
def Interval.search (i : Interval) (top : Int) : Nat → Nat → Scaled
  | 0, n => ⟨i.value / i.den, top - n⟩
  | fuel + 1, n =>
    let e := top - (n : Int) + 1
    match i.onGrid? e with
    | some d => ⟨d, e⟩
    | none => i.search top fuel (n + 1)

def Scaled.strip (d : Scaled) : Nat → Scaled
  | 0 => d
  | fuel + 1 =>
    if d.digits ≠ 0 ∧ d.digits % 10 = 0 then
      Scaled.strip ⟨d.digits / 10, d.exponent + 1⟩ fuel
    else d

/-- The shortest decimal of a magnitude; seventeen digits always suffice. -/
def shortest (x : Magnitude) : Scaled :=
  if x.mantissa = 0 then ⟨0, 0⟩
  else
    let (num, den) := x.ratio
    ((Interval.ofMagnitude x).search (floorLog10 num den) 18 1).strip 20

/-- How decimals are written: the decimal exponents of the leading digit that are
written positionally, and the mark in front of a positive exponent. -/
structure Format where
  leastPositional : Int
  mostPositional : Int
  positiveExponentMark : String

/-- Digits with the point in front of them, behind them or between. Whole numbers
keep one zero behind the point. -/
def positional (ds : List Char) (lead : Int) : List Char :=
  if lead < 0 then
    '0' :: '.' :: (List.replicate (-lead - 1).toNat '0' ++ ds)
  else
    let whole := lead.toNat + 1
    if ds.length ≤ whole then ds ++ List.replicate (whole - ds.length) '0' ++ ['.', '0']
    else ds.take whole ++ '.' :: ds.drop whole

def scientific (f : Format) (ds : List Char) (lead : Int) : List Char :=
  let mantissa :=
    match ds with
    | [] => []
    | [d] => [d]
    | d :: rest => d :: '.' :: rest
  let mark := if lead < 0 then "e-" else "e" ++ f.positiveExponentMark
  mantissa ++ mark.toList ++ Nat.toDigits 10 lead.natAbs

def Format.render (f : Format) (bits : Nat) : String :=
  let d := shortest (Magnitude.ofBits bits)
  let sign := if isNegative bits then ['-'] else []
  let body :=
    if d.digits = 0 then ['0', '.', '0']
    else
      let ds := Nat.toDigits 10 d.digits
      let lead := d.exponent + ds.length - 1
      if f.leastPositional ≤ lead ∧ lead ≤ f.mostPositional then positional ds lead
      else scientific f ds lead
  String.ofList (sign ++ body)

end ReleaseOperator.Decimal
