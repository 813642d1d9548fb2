import ReleaseOperator.Json.Value

/-!
# Reading Json text

`Json.read?` reads a whole text. The tree that it gives keeps the fields of an
object as they were written, repetitions included, because a record refuses a
field that is given twice while a free value keeps the last one; `Json.settle`
turns the written tree into the free value.

Whole numbers outside of the 64-bit ranges, and `-0`, become doubles. A decimal
fraction is read with two roundings: its digits (as many as fit 64 bits) as a
double, then one product or quotient with the double of the power of ten.
Values may be nested 127 deep.
-/

namespace ReleaseOperator.Json

abbrev Rest := List Char

def skipSpace : Rest → Rest
  | c :: cs => if c = ' ' || c = '\n' || c = '\t' || c = '\r' then skipSpace cs else c :: cs
  | [] => []

def maxWord : Nat := Nat.pow 2 64 - 1

def digit? (c : Char) : Option Nat :=
  if c.isDigit then some (c.toNat - 48) else none

def hexValue? (c : Char) : Option Nat :=
  if c.isDigit then some (c.toNat - 48)
  else if 'a' ≤ c ∧ c ≤ 'f' then some (c.toNat - 87)
  else if 'A' ≤ c ∧ c ≤ 'F' then some (c.toNat - 55)
  else none

def spanDigits (cs : Rest) : List Nat × Rest :=
  ((cs.takeWhile Char.isDigit).filterMap digit?, cs.dropWhile Char.isDigit)

/-- The number of as many digits as fit 64 bits, and how many are left out. -/
def gather : Nat → List Nat → Nat × Nat
  | acc, [] => (acc, 0)
  | acc, d :: ds => if acc * 10 + d ≤ maxWord then gather (acc * 10 + d) ds else (acc, ds.length + 1)

/-- A double scaled by powers of ten, with one rounding for each step: steps of
`10 ^ 308` until the rest of the exponent fits. -/
def scaleTen (fuel : Nat) (x : Binary64.Magnitude) (exponent : Int) : Option Binary64.Magnitude :=
  match fuel with
  | 0 => some x
  | fuel + 1 =>
    if exponent.natAbs ≤ 308 then
      (Binary64.pow10? exponent.natAbs).bind fun p =>
        if 0 ≤ exponent then Binary64.mul? x p else Binary64.div? x p
    else if x.mantissa = 0 then some x
    else if 0 ≤ exponent then none
    else
      (Binary64.pow10? 308).bind fun p =>
        (Binary64.div? x p).bind fun y => scaleTen fuel y (exponent + 308)

/-- The double of a significand and a power of ten; `none` when it is too large. -/
def decimal? (negative : Bool) (significand : Nat) (exponent : Int) : Option Json :=
  (Binary64.nearest? significand 1).bind fun f =>
    (scaleTen 12 f exponent).map fun x =>
      real ((if negative then Binary64.signBit else 0) + x.bits)

def readExponent (negative : Bool) (significand : Nat) (start : Int) (cs : Rest) :
    Option (Json × Rest) :=
  let (down, cs) :=
    match cs with
    | '+' :: cs => (false, cs)
    | '-' :: cs => (true, cs)
    | cs => (false, cs)
  let (ds, rest) := spanDigits cs
  if ds.isEmpty then none
  else
    let e : Nat := ds.foldl (fun acc d => acc * 10 + d) 0
    if Nat.pow 2 31 ≤ e then
      if significand ≠ 0 ∧ !down then none
      else some (real (if negative then Binary64.signBit else 0), rest)
    else
      let exponent := if down then start - (e : Int) else start + (e : Int)
      (decimal? negative significand exponent).map (·, rest)

def finishReal (negative : Bool) (significand : Nat) (exponent : Int) (cs : Rest) :
    Option (Json × Rest) :=
  match cs with
  | 'e' :: cs => readExponent negative significand exponent cs
  | 'E' :: cs => readExponent negative significand exponent cs
  | cs => (decimal? negative significand exponent).map (·, cs)

def readUnsigned (negative : Bool) (cs : Rest) : Option (Json × Rest) :=
  let (ds, rest) := spanDigits cs
  match ds with
  | [] => none
  | 0 :: _ :: _ => none
  | ds =>
    let (n, excess) := gather 0 ds
    match rest with
    | '.' :: cs =>
      let (fs, rest) := spanDigits cs
      if fs.isEmpty then none
      else
        let (m, left) := gather n fs
        finishReal negative m ((excess : Int) - (fs.length - left : Nat)) rest
    | 'e' :: _ => finishReal negative n excess rest
    | 'E' :: _ => finishReal negative n excess rest
    | rest =>
      if excess ≠ 0 then finishReal negative n excess rest
      else if !negative then some (whole n, rest)
      else if n = 0 ∨ Nat.pow 2 63 < n then
        (Binary64.nearest? n 1).map fun x => (real (Binary64.signBit + x.bits), rest)
      else some (whole (-(n : Int)), rest)

def readHex4 : Rest → Option (Nat × Rest)
  | a :: b :: c :: d :: rest => do
    let a ← hexValue? a
    let b ← hexValue? b
    let c ← hexValue? c
    let d ← hexValue? d
    return (((a * 16 + b) * 16 + c) * 16 + d, rest)
  | _ => none

/-- The code point behind `\u`; the halves of a pair must come together. -/
def readUnicode (cs : Rest) : Option (Char × Rest) := do
  let (n, rest) ← readHex4 cs
  if 0xDC00 ≤ n ∧ n < 0xE000 then none
  else if 0xD800 ≤ n ∧ n < 0xDC00 then
    match rest with
    | '\\' :: 'u' :: rest => do
      let (m, rest) ← readHex4 rest
      if 0xDC00 ≤ m ∧ m < 0xE000 then
        return (Char.ofNat (0x10000 + (n - 0xD800) * 0x400 + (m - 0xDC00)), rest)
      else none
    | _ => none
  else return (Char.ofNat n, rest)

def readQuoted (fuel : Nat) (acc : List Char) : Rest → Option (String × Rest)
  | [] => none
  | '"' :: rest => some (String.ofList acc.reverse, rest)
  | '\\' :: c :: rest =>
    match fuel with
    | 0 => none
    | fuel + 1 =>
      let plain (c : Char) := readQuoted fuel (c :: acc) rest
      if c = '"' ∨ c = '\\' ∨ c = '/' then plain c
      else if c = 'b' then plain (Char.ofNat 8)
      else if c = 'f' then plain (Char.ofNat 12)
      else if c = 'n' then plain '\n'
      else if c = 'r' then plain '\r'
      else if c = 't' then plain '\t'
      else if c = 'u' then
        match readUnicode rest with
        | some (u, rest) => readQuoted fuel (u :: acc) rest
        | none => none
      else none
  | c :: rest =>
    match fuel with
    | 0 => none
    | fuel + 1 => if c.toNat < 32 then none else readQuoted fuel (c :: acc) rest

def readText (cs : Rest) : Option (String × Rest) :=
  readQuoted (cs.length + 1) [] cs

mutual

/-- One value. The fuel bounds the number of steps, the depth the nesting. -/
def readValue : Nat → Nat → Rest → Option (Json × Rest)
  | 0, _, _ => none
  | fuel + 1, depth, cs =>
    match skipSpace cs with
    | 'n' :: 'u' :: 'l' :: 'l' :: rest => some (null, rest)
    | 't' :: 'r' :: 'u' :: 'e' :: rest => some (bool true, rest)
    | 'f' :: 'a' :: 'l' :: 's' :: 'e' :: rest => some (bool false, rest)
    | '"' :: rest => (readText rest).map fun (s, rest) => (text s, rest)
    | '-' :: rest => readUnsigned true rest
    | '[' :: rest =>
      if depth = 0 then none
      else
        match skipSpace rest with
        | ']' :: rest => some (array [], rest)
        | rest => readItems fuel (depth - 1) [] rest
    | '{' :: rest =>
      if depth = 0 then none
      else
        match skipSpace rest with
        | '}' :: rest => some (object [], rest)
        | rest => readFields fuel (depth - 1) [] rest
    | c :: rest => if c.isDigit then readUnsigned false (c :: rest) else none
    | [] => none

def readItems : Nat → Nat → List Json → Rest → Option (Json × Rest)
  | 0, _, _, _ => none
  | fuel + 1, depth, acc, cs =>
    match readValue fuel depth cs with
    | none => none
    | some (v, rest) =>
      match skipSpace rest with
      | ',' :: rest => readItems fuel depth (v :: acc) rest
      | ']' :: rest => some (array (v :: acc).reverse, rest)
      | _ => none

def readFields : Nat → Nat → List (String × Json) → Rest → Option (Json × Rest)
  | 0, _, _, _ => none
  | fuel + 1, depth, acc, cs =>
    match skipSpace cs with
    | '"' :: rest =>
      match readText rest with
      | none => none
      | some (k, rest) =>
        match skipSpace rest with
        | ':' :: rest =>
          match readValue fuel depth rest with
          | none => none
          | some (v, rest) =>
            match skipSpace rest with
            | ',' :: rest => readFields fuel depth ((k, v) :: acc) rest
            | '}' :: rest => some (object ((k, v) :: acc).reverse, rest)
            | _ => none
        | _ => none
    | _ => none

end

/-- The written tree of a whole text. -/
def read? (s : String) : Option Json :=
  let cs := s.toList
  match readValue (2 * cs.length + 2) 127 cs with
  | some (v, rest) => if (skipSpace rest).isEmpty then some v else none
  | none => none

mutual

/-- The free value of a written tree: fields in order of their keys, of several
fields of one key the last. -/
def settle : Json → Json
  | array items => array (settleItems items)
  | object fields => ofFields (settleFields fields)
  | v => v

def settleItems : List Json → List Json
  | [] => []
  | v :: rest => settle v :: settleItems rest

def settleFields : List (String × Json) → List (String × Json)
  | [] => []
  | (k, v) :: rest => (k, settle v) :: settleFields rest

end

/-- The free value that a whole text stands for. -/
def parse? (s : String) : Option Json :=
  (read? s).map settle

end ReleaseOperator.Json
