import ReleaseOperator.Yaml.Cursor

/-!
# Lexemes

The single words of a Yaml text: names, tags, directives and the five ways to
write a scalar. Lines inside a scalar are folded: one line end counts as a space,
several as one less than their number, except in literal blocks, which keep them
all.
-/

namespace ReleaseOperator.Yaml

/-- What stood between two words of a scalar. -/
structure Gap where
  /-- The blanks, when there was no line end. -/
  blanks : List Char
  /-- Whether there was a line end. -/
  broken : Bool
  first : List Char
  others : List Char

namespace Gap

def none : Gap := ⟨[], false, [], []⟩

def text (g : Gap) : List Char :=
  if g.broken then
    if g.first = ['\n'] then (if g.others.isEmpty then [' '] else g.others)
    else g.first ++ g.others
  else g.blanks

/-- The gap at the cursor. In a plain scalar no tab may stand, at the start of a
line, in front of a given column. -/
def read (tabLimit : Option Nat) : Nat → Gap → Cursor → Except Fault (Gap × Cursor)
  | 0, g, c => .ok (g, c)
  | fuel + 1, g, c =>
    match c.rest with
    | [] => .ok (g, c)
    | ch :: _ =>
      if isBlank ch then
        if !g.broken then read tabLimit fuel { g with blanks := g.blanks ++ [ch] } (c.skip 1)
        else if ch = '\t' && tabLimit.any (fun limit => decide (c.column < limit)) then
          c.fault "found a tab character that violates indentation"
        else read tabLimit fuel g (c.skip 1)
      else if isBreak ch then
        let (b, c) := c.takeBreak
        if !g.broken then read tabLimit fuel ⟨[], true, b, g.others⟩ c
        else read tabLimit fuel { g with others := g.others ++ b } c
      else .ok (g, c)

end Gap

def hexDigit? (c : Char) : Option Nat :=
  if c.isDigit then some (c.toNat - 48)
  else if 'a' ≤ c ∧ c ≤ 'f' then some (c.toNat - 87)
  else if 'A' ≤ c ∧ c ≤ 'F' then some (c.toNat - 55)
  else none

def hexNumber? (cs : List Char) : Option Nat :=
  cs.foldlM (fun acc c => (hexDigit? c).map fun d => acc * 16 + d) 0

/-- The character behind a backslash: one that stands for a character, or the
length of a code that follows. -/
def escape? (c : Char) : Option (Char ⊕ Nat) :=
  let code (n : Nat) : Option (Char ⊕ Nat) := some (.inl (Char.ofNat n))
  match c with
  | '0' => code 0
  | 'a' => code 7
  | 'b' => code 8
  | 't' => code 9
  | '\t' => code 9
  | 'n' => code 10
  | 'v' => code 11
  | 'f' => code 12
  | 'r' => code 13
  | 'e' => code 27
  | ' ' => code 32
  | '"' => code 34
  | '/' => code 47
  | '\\' => code 92
  | 'N' => code 0x85
  | '_' => code 0xA0
  | 'L' => code 0x2028
  | 'P' => code 0x2029
  | 'x' => some (.inr 2)
  | 'u' => some (.inr 4)
  | 'U' => some (.inr 8)
  | _ => none

def readEscape (c : Cursor) : Except Fault (Char × Cursor) :=
  match (c.rest.drop 1).head?.bind escape? with
  | none => c.fault "found unknown escape character"
  | some (.inl ch) => .ok (ch, c.skip 2)
  | some (.inr n) =>
    let digits := (c.rest.drop 2).take n
    match (if digits.length = n then hexNumber? digits else none) with
    | none => (c.skip 2).fault "did not find expected hexdecimal number"
    | some code =>
      if (0xD800 ≤ code ∧ code ≤ 0xDFFF) ∨ 0x10FFFF < code then
        (c.skip 2).fault "found invalid Unicode character escape code"
      else .ok (Char.ofNat code, c.skip (2 + n))

/-- The characters of a quoted scalar up to a blank, a line end or the closing
quote, in reverse order in front of those already read; and whether an escaped
line end follows. -/
def readQuotedRun (single : Bool) :
    Nat → List Char → Cursor → Except Fault (List Char × Bool × Cursor)
  | 0, acc, c => .ok (acc, false, c)
  | fuel + 1, acc, c =>
    match c.rest with
    | [] => .ok (acc, false, c)
    | ch :: cs =>
      let quoteMark := if single then Char.ofNat 39 else '"'
      if isBlank ch || isBreak ch then .ok (acc, false, c)
      else if single && ch = quoteMark && cs.head? = some quoteMark then
        readQuotedRun single fuel (ch :: acc) (c.skip 2)
      else if ch = quoteMark then .ok (acc, false, c)
      else if !single && ch = '\\' then
        if cs.head?.any isBreak then .ok (acc, true, (c.skip 1).skipBreak)
        else
          match readEscape c with
          | .error e => .error e
          | .ok (u, c) => readQuotedRun single fuel (u :: acc) c
      else readQuotedRun single fuel (ch :: acc) (c.skip 1)

def readQuoted (single : Bool) : Nat → List Char → Cursor → Except Fault (String × Cursor)
  | 0, _, c => c.fault "found unexpected end of stream"
  | fuel + 1, acc, c => do
    if c.atDocumentMarker then c.fault "found unexpected document indicator"
    else if c.rest.isEmpty then c.fault "found unexpected end of stream"
    else
      let (acc, escapedBreak, c) ← readQuotedRun single (c.rest.length + 1) acc c
      let quoteMark := if single then Char.ofNat 39 else '"'
      if c.rest.head? = some quoteMark then return (String.ofList acc.reverse, c.skip 1)
      else
        let (g, c) ← Gap.read none (c.rest.length + 1) ⟨[], escapedBreak, [], []⟩ c
        readQuoted single fuel (g.text.reverse ++ acc) c

/-- The word at the start of a plain scalar's rest: the characters up to a blank
or an indicator that ends the scalar. `none` when a colon stands where flow
collections do not allow one. -/
def plainWord? (flow : Bool) : List Char → Option (List Char)
  | [] => some []
  | ch :: cs =>
    if isBlank ch || isBreak ch then some []
    else if flow && ch = ':' && cs.head?.any (fun n => [',', '?', '[', ']', '{', '}'].contains n) then
      none
    else if ch = ':' && atBlankOrEnd cs then some []
    else if flow && [',', '[', ']', '{', '}'].contains ch then some []
    else (plainWord? flow cs).map (ch :: ·)

/-- A plain scalar. The words are collected in reverse; a line that is indented
less than the scalar ends it. The answer tells whether the scalar is followed by
a line end. -/
def readPlain (flow : Bool) (indent : Nat) :
    Nat → List Char → Gap → Cursor → Except Fault (String × Bool × Cursor)
  | 0, acc, g, c => .ok (String.ofList acc.reverse, g.broken, c)
  | fuel + 1, acc, g, c => do
    let finished : Except Fault (String × Bool × Cursor) :=
      .ok (String.ofList acc.reverse, g.broken, c)
    if c.atDocumentMarker then finished
    else if c.rest.head? = some '#' then finished
    else
      match plainWord? flow c.rest with
      | none => c.fault "found unexpected ':'"
      | some [] => finished
      | some word =>
        let acc := word.reverse ++ (g.text.reverse ++ acc)
        let c := c.skip word.length
        if !atBlankOrEnd c.rest || c.rest.isEmpty then
          return (String.ofList acc.reverse, false, c)
        else
          let (g, c) ← Gap.read (some indent) (c.rest.length + 1) .none c
          if !flow && c.column < indent then return (String.ofList acc.reverse, g.broken, c)
          else readPlain flow indent fuel acc g c

/-- The line ends in front of the next line of a block, the cursor at that line,
and the widest indentation seen. A known indentation is not crossed. -/
def readBlockBreaks (indent : Option Nat) :
    Nat → List Char → Nat → Cursor → Except Fault (List Char × Nat × Cursor)
  | 0, acc, widest, c => .ok (acc, widest, c)
  | fuel + 1, acc, widest, c =>
    let spaces := (c.rest.takeWhile (· = ' ')).length
    let c := c.skip (match indent with
      | some n => min spaces (n - c.column)
      | none => spaces)
    let widest := max widest c.column
    if c.rest.head? = some '\t' && indent.all (fun n => decide (c.column < n)) then
      c.fault "found a tab character where an indentation space is expected"
    else if atLineEnd c.rest && !c.rest.isEmpty then
      let (b, c) := c.takeBreak
      readBlockBreaks indent fuel (acc ++ b) widest c
    else .ok (acc, widest, c)

/-- What surrounds the lines of a block: the last line end, the empty lines behind
it, and whether the last line began with a blank. -/
structure BlockEnd where
  last : List Char
  empty : List Char
  ledByBlank : Bool

def readBlockLines (literal : Bool) (indent : Nat) :
    Nat → List Char → BlockEnd → Cursor → Except Fault (List Char × BlockEnd × Cursor)
  | 0, acc, e, c => .ok (acc, e, c)
  | fuel + 1, acc, e, c => do
    if c.column = indent && !c.rest.isEmpty then
      let blank := c.rest.head?.any isBlank
      let fold := !literal && e.last = ['\n'] && !e.ledByBlank && !blank
      let joint := if fold then (if e.empty.isEmpty then [' '] else []) else e.last
      let (line, c) := c.spanLine fun _ => true
      let (last, c) := c.takeBreak
      let (empty, _, c) ← readBlockBreaks (some indent) (c.rest.length + 1) [] 0 c
      readBlockLines literal indent fuel
        (line.reverse ++ (e.empty.reverse ++ (joint.reverse ++ acc))) ⟨last, empty, blank⟩ c
    else return (acc, e, c)

inductive Chomping where
  | strip
  | clip
  | keep
  deriving Repr, DecidableEq

/-- The header of a block: chomping and indentation in either order. -/
def readBlockHeader (c : Cursor) : Except Fault (Chomping × Option Nat × Cursor) :=
  let chomping? (c : Cursor) : Option Chomping :=
    match c.rest with
    | '+' :: _ => some .keep
    | '-' :: _ => some .strip
    | _ => none
  let digit? (c : Cursor) : Option Nat :=
    match c.rest with
    | ch :: _ => if ch.isDigit then some (ch.toNat - 48) else none
    | [] => none
  let checked (n : Option Nat) (c : Cursor) : Except Fault (Option Nat × Cursor) :=
    match n with
    | none => .ok (none, c)
    | some 0 => c.fault "found an indentation indicator equal to 0"
    | some n => .ok (some n, c.skip 1)
  match chomping? c with
  | some chomping => do
    let c := c.skip 1
    let (increment, c) ← checked (digit? c) c
    return (chomping, increment, c)
  | none => do
    let (increment, c) ← checked (digit? c) c
    match increment, chomping? c with
    | some n, some chomping => return (chomping, some n, c.skip 1)
    | increment, _ => return (.clip, increment, c)

/-- A block scalar behind its indicator, inside blocks of a given indentation. -/
def readBlock (literal : Bool) (parent : Int) (c : Cursor) : Except Fault (String × Cursor) := do
  let (chomping, increment, c) ← readBlockHeader c
  let c := c.skipComment
  if !atLineEnd c.rest then c.fault "did not find expected comment or line break"
  else
    let c := c.skipBreak
    let given : Option Nat := increment.map fun n => (if 0 ≤ parent then parent.toNat else 0) + n
    let (empty, widest, c) ← readBlockBreaks given (c.rest.length + 1) [] 0 c
    let indent := given.getD (max (max widest (parent + 1).toNat) 1)
    let (acc, e, c) ←
      readBlockLines literal indent (c.rest.length + 1) [] ⟨[], empty, false⟩ c
    let last := if chomping = .strip then [] else e.last
    let empty := if chomping = .keep then e.empty else []
    return (String.ofList (acc.reverse ++ last ++ empty), c)

def readName (c : Cursor) : Except Fault (String × Cursor) :=
  let (name, c) := c.spanLine isNameChar
  let ends := atBlankOrEnd c.rest ||
    c.rest.head?.any fun ch => ['?', ':', ',', ']', '}', '%', '@', Char.ofNat 96].contains ch
  if name.isEmpty || !ends then c.fault "did not find expected alphabetic or numeric character"
  else .ok (String.ofList name, c)

def isTagChar (verbatim : Bool) (c : Char) : Bool :=
  isNameChar c || [';', '/', '?', ':', '@', '&', '=', '+', '$', '.', '!', '~', '*',
    Char.ofNat 39, '(', ')'].contains c || (verbatim && [',', '[', ']'].contains c)

def octet? : List Char → Option Nat
  | '%' :: a :: b :: _ => hexNumber? [a, b]
  | _ => none

def readOctets (c : Cursor) : Except Fault (Char × Cursor) :=
  match octet? c.rest with
  | none => c.fault "did not find URI escaped octet"
  | some n =>
    let lead : Option (Nat × Nat) :=
      if n < 0x80 then some (n, 0)
      else if 0xC0 ≤ n ∧ n < 0xE0 then some (n - 0xC0, 1)
      else if 0xE0 ≤ n ∧ n < 0xF0 then some (n - 0xE0, 2)
      else if 0xF0 ≤ n ∧ n < 0xF8 then some (n - 0xF0, 3)
      else none
    match lead with
    | none => c.fault "found an incorrect leading UTF-8 octet"
    | some (start, count) =>
      let places := List.range count
      let step (acc : Option Nat) (i : Nat) : Option Nat := do
        let acc ← acc
        let m ← octet? (c.rest.drop (3 * (i + 1)))
        if 0x80 ≤ m ∧ m < 0xC0 then return acc * 64 + (m - 0x80) else none
      match places.foldl step (some start) with
      | none => c.fault "found an incorrect trailing UTF-8 octet"
      | some code => .ok (Char.ofNat code, c.skip (3 * (count + 1)))

def readTagChars (verbatim : Bool) :
    Nat → List Char → Cursor → Except Fault (List Char × Cursor)
  | 0, acc, c => .ok (acc, c)
  | fuel + 1, acc, c =>
    match c.rest with
    | [] => .ok (acc, c)
    | ch :: _ =>
      if ch = '%' then
        match readOctets c with
        | .error e => .error e
        | .ok (u, c) => readTagChars verbatim fuel (u :: acc) c
      else if isTagChar verbatim ch then readTagChars verbatim fuel (ch :: acc) (c.skip 1)
      else .ok (acc, c)

def readTagBody (verbatim : Bool) (start : List Char) (known : Nat) (c : Cursor) :
    Except Fault (String × Cursor) := do
  let (acc, c') ← readTagChars verbatim (c.rest.length + 1) start.reverse c
  if known = 0 && acc.isEmpty then c'.fault "did not find expected tag URI"
  else return (String.ofList acc.reverse, c')

/-- The handle of a tag: an exclamation mark, perhaps a name and a second mark. -/
def readTagHandle (directive : Bool) (c : Cursor) : Except Fault (List Char × Cursor) :=
  if c.rest.head? ≠ some '!' then c.fault "did not find expected '!'"
  else
    let (name, c) := (c.skip 1).spanLine isNameChar
    if c.rest.head? = some '!' then .ok ('!' :: (name ++ ['!']), c.skip 1)
    else if directive && !name.isEmpty then c.fault "did not find expected '!'"
    else .ok ('!' :: name, c)

def readTag (flow : Bool) (c : Cursor) : Except Fault (String × String × Cursor) := do
  let (handle, suffix, c) ←
    if (c.rest.drop 1).head? = some '<' then do
      let (s, c) ← readTagBody true [] 0 (c.skip 2)
      if c.rest.head? = some '>' then pure ("", s, c.skip 1)
      else c.fault "did not find the expected '>'"
    else do
      let (handle, c) ← readTagHandle false c
      if 2 ≤ handle.length && handle.getLast? = some '!' then do
        let (s, c) ← readTagBody false [] 0 c
        pure (String.ofList handle, s, c)
      else do
        let (s, c) ← readTagBody false (handle.drop 1) handle.length c
        pure (if s.isEmpty then ("", "!", c) else ("!", s, c))
  if atBlankOrEnd c.rest || (flow && c.rest.head? = some ',') then return (handle, suffix, c)
  else c.fault "did not find expected whitespace or line break"

inductive Directive where
  | version (major minor : Nat)
  | tag (handle start : String)
  deriving Repr, DecidableEq

def readVersionNumber (c : Cursor) : Except Fault (Nat × Cursor) :=
  let (ds, c') := c.spanLine Char.isDigit
  if ds.isEmpty then c.fault "did not find expected version number"
  else if 9 < ds.length then c.fault "found extremely long version number"
  else .ok (ds.foldl (fun acc d => acc * 10 + (d.toNat - 48)) 0, c')

def readDirective (c : Cursor) : Except Fault (Directive × Cursor) := do
  let (name, c) := c.spanLine isNameChar
  if name.isEmpty then c.fault "could not find expected directive name"
  else if !atBlankOrEnd c.rest then c.fault "found unexpected non-alphabetical character"
  else
    let (d, c) ←
      if name = ['Y', 'A', 'M', 'L'] then do
        let (major, c) ← readVersionNumber (c.skipWhile isBlank)
        if c.rest.head? ≠ some '.' then c.fault "did not find expected digit or '.' character"
        else do
          let (minor, c) ← readVersionNumber (c.skip 1)
          pure (Directive.version major minor, c)
      else if name = ['T', 'A', 'G'] then do
        let (handle, c) ← readTagHandle true (c.skipWhile isBlank)
        if !c.rest.head?.any isBlank then c.fault "did not find expected whitespace"
        else do
          let (start, c) ← readTagBody true [] 0 (c.skipWhile isBlank)
          if !atBlankOrEnd c.rest then c.fault "did not find expected whitespace or line break"
          else pure (Directive.tag (String.ofList handle) start, c)
      else c.fault "found unknown directive name"
    let c := c.skipComment
    if !atLineEnd c.rest then c.fault "did not find expected comment or line break"
    else return (d, c.skipBreak)

end ReleaseOperator.Yaml
