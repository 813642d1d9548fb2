/-!
# Places in a Yaml text

What is left of a text while it is read, with the place reached in it. A line
ends with a carriage return and line feed together, with either of them alone, or
with one of three further characters of Unicode.
-/

namespace ReleaseOperator.Yaml

/-- A place in a text, counted from zero. -/
structure Mark where
  index : Nat
  line : Nat
  column : Nat
  deriving Repr, DecidableEq

structure Fault where
  problem : String
  mark : Mark
  deriving Repr, DecidableEq

def Fault.message (f : Fault) : String :=
  f.problem ++ " at line " ++ toString (f.mark.line + 1) ++ " column " ++
    toString (f.mark.column + 1)

def isBlank (c : Char) : Bool := c = ' ' || c = '\t'

def isBreak (c : Char) : Bool :=
  c = '\n' || c = '\r' || c.toNat = 0x85 || c.toNat = 0x2028 || c.toNat = 0x2029

def isNameChar (c : Char) : Bool :=
  c.isAlphanum || c = '_' || c = '-'

def isAllowed (c : Char) : Bool :=
  let n := c.toNat
  n = 9 || n = 10 || n = 13 || (0x20 ≤ n && n ≤ 0x7E) || n = 0x85 ||
    (0xA0 ≤ n && n ≤ 0xFFFD) || 0x10000 ≤ n

def atBlankOrEnd : List Char → Bool
  | [] => true
  | c :: _ => isBlank c || isBreak c

def atLineEnd : List Char → Bool
  | [] => true
  | c :: _ => isBreak c

structure Cursor where
  rest : List Char
  mark : Mark
  deriving Repr, DecidableEq

namespace Cursor

def ofChars (cs : List Char) : Cursor := ⟨cs, ⟨0, 0, 0⟩⟩

def column (c : Cursor) : Nat := c.mark.column

def skip (c : Cursor) (n : Nat) : Cursor :=
  ⟨c.rest.drop n, ⟨c.mark.index + n, c.mark.line, c.mark.column + n⟩⟩

/-- The characters at the cursor, all in one line, that have a property, and the
cursor behind them. -/
def spanLine (c : Cursor) (p : Char → Bool) : List Char × Cursor :=
  let run := c.rest.takeWhile fun ch => p ch && !isBreak ch
  (run, c.skip run.length)

def skipWhile (c : Cursor) (p : Char → Bool) : Cursor := (c.spanLine p).2

/-- The line end at the cursor as it counts in a value, and the cursor at the next
line. The common line ends count as a line feed, the other two as themselves. -/
def takeBreak (c : Cursor) : List Char × Cursor :=
  let next (n : Nat) : Cursor := ⟨c.rest.drop n, ⟨c.mark.index + n, c.mark.line + 1, 0⟩⟩
  match c.rest with
  | '\r' :: '\n' :: _ => (['\n'], next 2)
  | ch :: _ =>
    if !isBreak ch then ([], c)
    else if ch.toNat = 0x2028 || ch.toNat = 0x2029 then ([ch], next 1)
    else (['\n'], next 1)
  | [] => ([], c)

def skipBreak (c : Cursor) : Cursor := c.takeBreak.2

def skipComment (c : Cursor) : Cursor :=
  let c := c.skipWhile isBlank
  match c.rest with
  | '#' :: _ => c.skipWhile fun _ => true
  | _ => c

/-- Whether the line begins here with three times a character and nothing more. -/
def atMarker (c : Cursor) (ch : Char) : Bool :=
  c.column = 0 &&
    match c.rest with
    | x :: y :: z :: rest => x = ch && y = ch && z = ch && atBlankOrEnd rest
    | _ => false

def atDocumentMarker (c : Cursor) : Bool := c.atMarker '-' || c.atMarker '.'

def fault (c : Cursor) (problem : String) : Except Fault α := .error ⟨problem, c.mark⟩

end Cursor

end ReleaseOperator.Yaml
