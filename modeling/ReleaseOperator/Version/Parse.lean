import ReleaseOperator.Text.Quoted
import ReleaseOperator.Text.Search
import ReleaseOperator.Version.Basic

/-!
# Reading versions

A version is read from left to right; the first fault names the part in which it
was found. Users may put blanks around a version and one `v` in front of it.
-/

namespace ReleaseOperator

inductive Version.Part where
  | major
  | minor
  | patch
  | pre
  | build
  deriving Repr, DecidableEq

def Version.Part.name : Version.Part → String
  | .major => "major version number"
  | .minor => "minor version number"
  | .patch => "patch version number"
  | .pre => "pre-release identifier"
  | .build => "build metadata"

inductive VersionError where
  | empty
  | unexpectedEnd (part : Version.Part)
  | unexpectedChar (part : Version.Part) (c : Char)
  | unexpectedCharAfter (part : Version.Part) (c : Char)
  | leadingZero (part : Version.Part)
  | tooLarge (part : Version.Part)
  | emptySegment (part : Version.Part)
  deriving Repr, DecidableEq

def VersionError.message : VersionError → String
  | .empty => "empty string, expected a semver version"
  | .unexpectedEnd p => "unexpected end of input while parsing " ++ p.name
  | .unexpectedChar p c =>
    "unexpected character " ++ Text.quoteChar c ++ " while parsing " ++ p.name
  | .unexpectedCharAfter p c => "unexpected character " ++ Text.quoteChar c ++ " after " ++ p.name
  | .leadingZero p => "invalid leading zero in " ++ p.name
  | .tooLarge p => "value of " ++ p.name ++ " exceeds u64::MAX"
  | .emptySegment p => "empty identifier segment in " ++ p.name

namespace Version

/-- A number of the version, up to the first character that is no digit. -/
def readNumber (part : Part) (acc : Option Nat) : List Char → Except VersionError (Nat × List Char)
  | [] =>
    match acc with
    | some n => .ok (n, [])
    | none => .error (.unexpectedEnd part)
  | c :: cs =>
    if c.isDigit then
      match acc with
      | some 0 => .error (.leadingZero part)
      | acc =>
        let n := acc.getD 0 * 10 + (c.toNat - 48)
        if Nat.pow 2 64 ≤ n then .error (.tooLarge part) else readNumber part (some n) cs
    else
      match acc with
      | some n => .ok (n, c :: cs)
      | none => .error (.unexpectedChar part c)

def readDot (part : Part) : List Char → Except VersionError (List Char)
  | [] => .error (.unexpectedEnd part)
  | c :: cs => if c = '.' then .ok cs else .error (.unexpectedCharAfter part c)

def isIdentifierChar (c : Char) : Bool :=
  c.isAlpha || c.isDigit || c = '-'

def hasLeadingZero (s : List Char) : Bool :=
  s.all Char.isDigit && decide (1 < s.length) && s.head? == some '0'

/-- The identifiers with dots between them, each up to the first character that
may not stand in one. The segment being read and the finished ones come along. -/
def readIdentifiers (part : Part) (done : List String) (segment : List Char) :
    List Char → Except VersionError (List String × List Char)
  | [] => close done segment []
  | c :: cs =>
    if isIdentifierChar c then readIdentifiers part done (c :: segment) cs
    else if c = '.' then
      if segment.isEmpty then .error (.emptySegment part)
      else if part = .pre && hasLeadingZero segment.reverse then .error (.leadingZero part)
      else readIdentifiers part (String.ofList segment.reverse :: done) [] cs
    else close done segment (c :: cs)
where
  /-- The end of the last identifier. -/
  close (done : List String) (segment rest : List Char) :
      Except VersionError (List String × List Char) :=
    if segment.isEmpty then .error (.emptySegment part)
    else if part = .pre && hasLeadingZero segment.reverse then .error (.leadingZero part)
    else .ok ((String.ofList segment.reverse :: done).reverse, rest)

/-- The identifiers behind a mark, when the mark stands there. -/
def readMarked (part : Part) (mark : Char) (cs : List Char) :
    Except VersionError (Option (List String) × List Char) :=
  match cs with
  | [] => .ok (none, [])
  | c :: rest =>
    if c = mark then (readIdentifiers part [] [] rest).map fun (ids, rest) => (some ids, rest)
    else .ok (none, c :: rest)

def readAll (cs : List Char) : Except VersionError Version := do
  if cs.isEmpty then throw .empty
  let (major, cs) ← readNumber .major none cs
  let cs ← readDot .major cs
  let (minor, cs) ← readNumber .minor none cs
  let cs ← readDot .minor cs
  let (patch, cs) ← readNumber .patch none cs
  let (pre, cs) ← readMarked .pre '-' cs
  let (build, cs) ← readMarked .build '+' cs
  match cs with
  | [] => return ⟨major, minor, patch, pre.getD [], build.getD []⟩
  | c :: _ =>
    let part : Part := if build.isSome then .build else if pre.isSome then .pre else .patch
    throw (.unexpectedCharAfter part c)

def parse (s : String) : Except VersionError Version :=
  let cs := Text.trimChars s.toList
  readAll ((Text.dropStart? ['v'] cs).getD cs)

/-- The order of two versions given as texts; the left text is read first. -/
def compareTexts (left right : String) : Except VersionError Ordering := do
  let v ← parse left
  let w ← parse right
  return v.order w

end Version

end ReleaseOperator
