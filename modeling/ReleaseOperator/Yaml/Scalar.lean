import ReleaseOperator.Decimal.Binary64
import ReleaseOperator.Text.Search

/-!
# Scalars

What a scalar stands for. A plain scalar is read by its spelling: as the null
value, a truth value, a whole number, a floating point number, or else as a text.
A tag of the core schema asks for one kind of value, and a quoted scalar is a text.

Words such as `yes` are texts, and so are digits behind a zero. Whole numbers may be
written with `0x`, `0o` and `0b`.
-/

namespace ReleaseOperator.Yaml

/-- What a scalar stands for. A `real` is given by the bits of a double, which may
be infinite or no number. -/
inductive Atom where
  | null
  | bool (b : Bool)
  | whole (i : Int)
  | real (bits : Nat)
  | text (s : String)
  deriving Repr, DecidableEq

namespace Atom

def notANumber : Nat := 0x7FF8 * Nat.pow 2 48

def isNullWord (s : String) : Bool :=
  ["null", "Null", "NULL", "~"].contains s

def boolOfWord? (s : String) : Option Bool :=
  if ["true", "True", "TRUE"].contains s then some true
  else if ["false", "False", "FALSE"].contains s then some false
  else none

def digit? (base : Nat) (c : Char) : Option Nat :=
  let d? :=
    if c.isDigit then some (c.toNat - 48)
    else if 'a' ≤ c ∧ c ≤ 'f' then some (c.toNat - 87)
    else if 'A' ≤ c ∧ c ≤ 'F' then some (c.toNat - 55)
    else none
  d?.filter fun d => decide (d < base)

def digits? (base : Nat) (cs : List Char) : Option Nat :=
  if cs.isEmpty then none
  else cs.foldlM (fun acc c => (digit? base c).map fun d => acc * base + d) 0

def digitsUpTo? (base bound : Nat) (cs : List Char) : Option Nat :=
  (digits? base cs).filter fun n => decide (n ≤ bound)

def isSigned (cs : List Char) : Bool :=
  cs.head?.any fun c => c = '+' || c = '-'

/-- Digits behind a zero, which are no number. -/
def isZeroLed (cs : List Char) : Bool :=
  let cs := if isSigned cs then cs.drop 1 else cs
  match cs with
  | '0' :: c :: rest => (c :: rest).all Char.isDigit
  | _ => false

def dropPlus (cs : List Char) : List Char :=
  (Text.dropStart? ['+'] cs).getD cs

/-- A number in one of the bases that are marked at the start. -/
def marked? (start : List Char) (bound : Nat) (cs : List Char) : Option Nat :=
  [("0x".toList, 16), ("0o".toList, 8), ("0b".toList, 2)].findSome? fun (mark, base) =>
    (Text.dropStart? (start ++ mark) cs).bind (digitsUpTo? base bound)

def nat? (bound : Nat) (cs : List Char) : Option Nat :=
  let unsigned := dropPlus cs
  (marked? [] bound unsigned).orElse fun _ =>
    if isSigned unsigned || isZeroLed cs then none else digitsUpTo? 10 bound unsigned

def negative? (bound : Nat) (cs : List Char) : Option Nat :=
  (marked? ['-'] bound cs).orElse fun _ =>
    match cs with
    | '-' :: ds => if isZeroLed cs then none else digitsUpTo? 10 bound ds
    | _ => none

def whole? (cs : List Char) : Option Int :=
  match nat? (Nat.pow 2 64 - 1) cs with
  | some n => some n
  | none => (negative? (Nat.pow 2 63) cs).map fun n => -(n : Int)

def isWide (cs : List Char) : Bool :=
  (nat? (Nat.pow 2 128 - 1) cs).isSome || (negative? (Nat.pow 2 127) cs).isSome

/-- The exponent at the end of a decimal fraction, zero when there is none. -/
def exponent? : List Char → Option Int
  | [] => some 0
  | c :: cs =>
    if c = 'e' || c = 'E' then
      match cs with
      | '-' :: ds => (digits? 10 ds).map fun n => -(n : Int)
      | '+' :: ds => (digits? 10 ds).map fun n => (n : Int)
      | ds => (digits? 10 ds).map fun n => (n : Int)
    else none

def fraction? (negative : Bool) (cs : List Char) : Option Nat :=
  let whole := cs.takeWhile Char.isDigit
  let rest := cs.dropWhile Char.isDigit
  let (places, rest) :=
    match rest with
    | '.' :: rest => (rest.takeWhile Char.isDigit, rest.dropWhile Char.isDigit)
    | rest => ([], rest)
  match digits? 10 (whole ++ places), exponent? rest with
  | some n, some e => Binary64.ofDecimal? negative n (e - places.length)
  | _, _ => none

def real? (cs : List Char) : Option Nat :=
  let unsigned := dropPlus cs
  let hasPlus := cs.head? = some '+'
  if hasPlus && isSigned unsigned then none
  else if [".inf", ".Inf", ".INF"].any fun w => w.toList = unsigned then some Binary64.infinityBits
  else if ["-.inf", "-.Inf", "-.INF"].any fun w => w.toList = cs then
    some (Binary64.signBit + Binary64.infinityBits)
  else if [".nan", ".NaN", ".NAN"].any fun w => w.toList = cs then some notANumber
  else
    match unsigned with
    | '-' :: rest => fraction? true rest
    | rest => fraction? false rest

/-- A number or a text; `none` for a whole number that is too large for 64 bits and
still one for 128. -/
def ofWord? (s : String) : Option Atom :=
  let cs := s.toList
  match whole? cs with
  | some i => some (.whole i)
  | none =>
    if isWide cs then none
    else if isZeroLed cs then some (.text s)
    else
      match real? cs with
      | some bits => some (.real bits)
      | none => some (.text s)

def ofPlain? (s : String) : Option Atom :=
  if s.isEmpty || isNullWord s then some .null
  else
    match boolOfWord? s with
    | some b => some (.bool b)
    | none => ofWord? s

def coreTag : String := "tag:yaml.org,2002:"

/-- What a scalar stands for, given its tag. A tag with an exclamation mark in front
says nothing about a plain scalar. -/
def ofScalar? (tag : Option String) (plain : Bool) (s : String) : Option Atom :=
  match tag with
  | none => if plain then ofPlain? s else some (.text s)
  | some t =>
    if t = coreTag ++ "bool" then (boolOfWord? s).map .bool
    else if t = coreTag ++ "int" then (whole? s.toList).map .whole
    else if t = coreTag ++ "float" then (real? s.toList).map .real
    else if t = coreTag ++ "null" then (if isNullWord s then some .null else none)
    else if Text.hasStart t "!" && plain then ofPlain? s
    else some (.text s)

end Atom

end ReleaseOperator.Yaml
