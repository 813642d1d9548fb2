import ReleaseOperator.Json.Compact
import ReleaseOperator.Yaml.Cursor
import ReleaseOperator.Yaml.Scalar

/-!
# Yaml text of free values

A value is written in blocks: a mapping one entry a line, a sequence one item a
line, with the sequence of an entry at the column of its key. Empty collections are
written in brackets. A text is written plain if it then reads back as that text, as
a literal block if it has several lines, and between quotes otherwise. A key that
is long or has several lines is marked with a question mark.
-/

namespace ReleaseOperator.Yaml

/-- How floating point numbers are written: like in Json, but without a plus in the
exponent. -/
def realFormat : Decimal.Format := ⟨-5, 15, ""⟩

inductive Style where
  | plain
  | single
  | double
  | literal
  deriving Repr, DecidableEq

def isPrintable (c : Char) : Bool :=
  let n := c.toNat
  n = 10 || (0x20 ≤ n && n ≤ 0x7E) || (0xA0 ≤ n && n ≠ 0xFEFF && n ≠ 0xFFFE && n ≠ 0xFFFF)

structure Shape where
  hasBreak : Bool
  plainAllowed : Bool
  singleAllowed : Bool
  literalAllowed : Bool
  deriving Repr, DecidableEq

namespace Shape

def isIndicator (c : Char) : Bool :=
  ['#', ',', '[', ']', '{', '}', '&', '*', '!', '|', '>', Char.ofNat 39, '"', '%', '@',
    Char.ofNat 96].contains c

def atBlank (cs : List Char) : Bool :=
  atBlankOrEnd cs || cs.head?.any fun c => c.toNat = 0

def headForbids : List Char → Bool
  | [] => false
  | c :: cs => isIndicator c || ((c = '?' || c = ':' || c = '-') && atBlank cs)

/-- Whether a later character forbids a plain text: a colon in front of a blank or a
number sign behind one. -/
def tailForbids : Char → List Char → Bool
  | _, [] => false
  | before, c :: cs =>
    (c = ':' && atBlank cs) || (c = '#' && atBlank [before]) || tailForbids c cs

def hasPair (p q : Char → Bool) : List Char → Bool
  | c :: d :: rest => (p c && q d) || hasPair p q (d :: rest)
  | _ => false

def beginsLikeMarker (cs : List Char) : Bool :=
  Text.startsWith ['-', '-', '-'] cs || Text.startsWith ['.', '.', '.'] cs

def of (cs : List Char) : Shape :=
  let isSpace (c : Char) : Bool := c = ' '
  let atEdge (p : Char → Bool) : Bool := cs.head?.any p || cs.getLast?.any p
  let hasBreak := cs.any isBreak
  let strange := cs.any fun c => !isPrintable c
  let breakSpace := hasPair isBreak isSpace cs
  let spaceBreak := hasPair isSpace isBreak cs
  let forbidden := beginsLikeMarker cs || headForbids cs ||
    (match cs with
      | [] => false
      | c :: rest => tailForbids c rest)
  if cs.isEmpty then ⟨false, true, true, false⟩
  else
    { hasBreak
      plainAllowed := !(atEdge isSpace || hasBreak || strange || forbidden)
      singleAllowed := !(breakSpace || spaceBreak || strange)
      literalAllowed := !(cs.getLast?.any isSpace || spaceBreak || strange) }

end Shape

/-- The way that a text asks for: a literal block for several lines, quotes where a
plain text would be read as something else. -/
def Style.wanted (s : String) : Style :=
  if s.toList.any (· = '\n') then .literal
  else
    match Atom.ofPlain? s with
    | some (.text _) => if Atom.isZeroLed s.toList then .single else .plain
    | _ => .single

def Style.fit (sh : Shape) (asKey : Bool) (s : Style) : Style :=
  let s := if asKey && sh.hasBreak then .double else s
  let s := if s = .plain && !sh.plainAllowed then .single else s
  let s := if s = .single && !sh.singleAllowed then .double else s
  if s = .literal && (!sh.literalAllowed || asKey) then .double else s

/-- A text that is being written: its characters in reverse order, the column, and
whether only blanks, or only indentation, have been written at the place reached. -/
structure Sheet where
  written : List Char
  column : Nat
  blank : Bool
  indented : Bool

namespace Sheet

def start : Sheet := ⟨[], 0, true, true⟩

def put (s : Sheet) (c : Char) : Sheet :=
  { s with written := c :: s.written, column := s.column + 1 }

def putAll (s : Sheet) (cs : List Char) : Sheet := cs.foldl put s

def putBreak (s : Sheet) (c : Char) : Sheet :=
  { s with written := c :: s.written, column := 0 }

/-- A sign. One that needs it has a space in front. -/
def sign (s : Sheet) (cs : List Char) (needsSpace isIndentation : Bool) : Sheet :=
  let s := if needsSpace && !s.blank then s.put ' ' else s
  { s.putAll cs with blank := false, indented := s.indented && isIndentation }

/-- The place moved to an indentation, on a new line unless the line is still
free up to there. -/
def indent (s : Sheet) (n : Nat) : Sheet :=
  let s :=
    if !s.indented || decide (n < s.column) || (s.column = n && !s.blank) then s.putBreak '\n' else s
  { s.putAll (List.replicate (n - s.column) ' ') with blank := true, indented := true }

def close (s : Sheet) : Sheet := { s with blank := false, indented := false }

def plain (s : Sheet) (cs : List Char) : Sheet :=
  ((if !s.blank && !cs.isEmpty then s.put ' ' else s).putAll cs).close

/-- A text between single quotes, which are written twice inside. A line end that is
no line feed stands for itself and the next line is indented. -/
def single (s : Sheet) (n : Nat) (cs : List Char) : Sheet :=
  let mark := Char.ofNat 39
  let step (acc : Sheet × Bool) (c : Char) : Sheet × Bool :=
    let (s, broken) := acc
    if c = ' ' then (s.put c, broken)
    else if isBreak c then
      let s := if c = '\n' && !broken then s.putBreak '\n' else s
      ({ s.putBreak c with indented := true }, true)
    else
      let s := if broken then s.indent n else s
      let s := if c = mark then s.put mark else s
      ({ s.put c with indented := false }, false)
  let (s, broken) := cs.foldl step (s.sign [mark] true false, false)
  let s := if broken then s.indent n else s
  (s.sign [mark] false false).close

def hexDigit (n : Nat) : Char :=
  if n < 10 then Char.ofNat (48 + n) else Char.ofNat (55 + n)

def hex (width n : Nat) : List Char :=
  (List.range width).reverse.map fun i => hexDigit (n / Nat.pow 16 i % 16)

def escape (c : Char) : List Char :=
  let n := c.toNat
  let short (l : Char) : List Char := ['\\', l]
  if isPrintable c && !isBreak c && c ≠ '"' && c ≠ '\\' then [c]
  else
    match n with
    | 0 => short '0'
    | 7 => short 'a'
    | 8 => short 'b'
    | 9 => short 't'
    | 10 => short 'n'
    | 11 => short 'v'
    | 12 => short 'f'
    | 13 => short 'r'
    | 27 => short 'e'
    | 34 => short '"'
    | 92 => short '\\'
    | 0x85 => short 'N'
    | 0x2028 => short 'L'
    | 0x2029 => short 'P'
    | n =>
      if n ≤ 0xFF then '\\' :: 'x' :: hex 2 n
      else if n ≤ 0xFFFF then '\\' :: 'u' :: hex 4 n
      else '\\' :: 'U' :: hex 8 n

def double (s : Sheet) (cs : List Char) : Sheet :=
  (((s.sign ['"'] true false).putAll (cs.flatMap escape)).sign ['"'] false false).close

/-- What follows the sign of a literal block: the indentation, where the text does
not show it, and what becomes of the line ends at its end. -/
def literalHints (cs : List Char) : List Char :=
  let width := if cs.head?.any (fun c => c = ' ' || isBreak c) then ['2'] else []
  let chomping :=
    match cs.reverse with
    | [] => ['-']
    | c :: rest =>
      if !isBreak c then ['-']
      else
        match rest with
        | [] => ['+']
        | d :: _ => if isBreak d then ['+'] else []
  width ++ chomping

def literal (s : Sheet) (n : Nat) (cs : List Char) : Sheet :=
  let step (acc : Sheet × Bool) (c : Char) : Sheet × Bool :=
    let (s, broken) := acc
    if isBreak c then ({ s.putBreak c with indented := true }, true)
    else
      let s := if broken then s.indent n else s
      ({ s.put c with indented := false }, false)
  let s := (s.sign ('|' :: literalHints cs) true false).putBreak '\n'
  (cs.foldl step ({ s with blank := true, indented := true }, true)).1

def scalar (s : Sheet) (outer : Option Nat) (style : Style) (cs : List Char) : Sheet :=
  let n := (outer.getD 0) + 2
  match style with
  | .plain => s.plain cs
  | .single => s.single n cs
  | .double => s.double cs
  | .literal => s.literal n cs

/-- The longest key, in octets, that needs no question mark. -/
def keyLimit : Nat := 128

def textValue (s : Sheet) (outer : Option Nat) (asKey : Bool) (t : String) : Sheet :=
  let cs := t.toList
  s.scalar outer ((Style.wanted t).fit (.of cs) asKey) cs

def key (s : Sheet) (n : Nat) (k : String) : Sheet :=
  let s := s.indent n
  if (Shape.of k.toList).hasBreak || keyLimit < k.utf8ByteSize then
    (((s.sign ['?'] true true).textValue (some n) false k).indent n).sign [':'] true true
  else (s.textValue (some n) true k).sign [':'] false false

mutual

def value (s : Sheet) (outer : Option Nat) (behindKey : Bool) : Json → Sheet
  | .null => s.plain "null".toList
  | .bool true => s.plain "true".toList
  | .bool false => s.plain "false".toList
  | .whole i => s.plain (Json.wholeText i)
  | .real bits => s.plain (realFormat.render bits).toList
  | .text t => s.textValue outer false t
  | .array [] => (s.sign ['['] true false).sign [']'] false false
  | .array (v :: vs) =>
    let n := match outer with
      | none => 0
      | some n => if behindKey && !s.indented then n else n + 2
    items (value ((s.indent n).sign ['-'] true true) (some n) false v) n vs
  | .object [] => (s.sign ['{'] true false).sign ['}'] false false
  | .object ((k, v) :: fields) =>
    let n := match outer with
      | none => 0
      | some n => n + 2
    entries (value (s.key n k) (some n) true v) n fields

def items (s : Sheet) (n : Nat) : List Json → Sheet
  | [] => s
  | v :: vs => items (value ((s.indent n).sign ['-'] true true) (some n) false v) n vs

def entries (s : Sheet) (n : Nat) : List (String × Json) → Sheet
  | [] => s
  | (k, v) :: fields => entries (value (s.key n k) (some n) true v) n fields

end

end Sheet

def render (v : Json) : String :=
  String.ofList ((Sheet.start.value none false v).indent 0).written.reverse

end ReleaseOperator.Yaml
