import ReleaseOperator.Yaml.Lexeme

/-!
# Tokens

The tokens of a Yaml text. Blocks are written by indentation alone, so the tokens
that open and close them are worked out here: a line that is indented further
opens a block, one that is indented less closes blocks. A key of a mapping is only
known when its colon comes, at most a line later, and then its token is put in
front of it.
-/

namespace ReleaseOperator.Yaml

/-- The kinds of token. A scalar tells whether it was written plain. -/
inductive Token where
  | directive (d : Directive)
  | documentStart
  | documentEnd
  | blockSequenceStart
  | blockMappingStart
  | blockEnd
  | flowSequenceStart
  | flowSequenceEnd
  | flowMappingStart
  | flowMappingEnd
  | blockEntry
  | flowEntry
  | key
  | value
  | reference (name : String)
  | anchor (name : String)
  | tag (handle suffix : String)
  | scalar (plain : Bool) (text : String)
  | streamEnd
  deriving Repr, DecidableEq

/-- A place at which a key may have begun. -/
structure PossibleKey where
  /-- Nothing else can stand there. -/
  required : Bool
  /-- The number of the token that would be the key. -/
  number : Nat
  mark : Mark

/-- The tokens found so far and what is needed to find the next one. There is one
possible key for each open flow collection and one outside of them. -/
structure Lexer where
  cursor : Cursor
  tokens : Array (Token × Mark)
  keys : List (Option PossibleKey)
  indent : Int
  outer : List Int
  keyAllowed : Bool

namespace Lexer

def start (cs : List Char) : Lexer :=
  ⟨.ofChars cs, #[], [none], -1, [], true⟩

def inFlow (l : Lexer) : Bool := decide (1 < l.keys.length)

def push (l : Lexer) (t : Token) : Lexer :=
  { l with tokens := l.tokens.push (t, l.cursor.mark) }

/-- A token put in front of the one with a given number. -/
def insertAt (l : Lexer) (n : Nat) (t : Token) (m : Mark) : Lexer :=
  { l with tokens := (l.tokens.extract 0 n).push (t, m) ++ l.tokens.extract n l.tokens.size }

def sign (l : Lexer) (t : Token) (width : Nat) : Lexer :=
  { l.push t with cursor := l.cursor.skip width }

def fault (l : Lexer) (problem : String) : Except Fault α := l.cursor.fault problem

def keyFault (l : Lexer) : Except Fault α := l.fault "could not find expected ':'"

def keyLimit : Nat := 1024

/-- Whether a key that began at a place can no longer be one. -/
def isStale (m now : Mark) : Bool :=
  decide (m.line < now.line) || decide (m.index + keyLimit < now.index)

def dropStaleKeys (l : Lexer) : Except Fault Lexer := do
  let keys ← l.keys.mapM fun k =>
    match k with
    | some key =>
      if isStale key.mark l.cursor.mark then (if key.required then l.keyFault else .ok none)
      else .ok (some key)
    | none => .ok none
  return { l with keys }

def dropKey (l : Lexer) : Except Fault Lexer :=
  match l.keys with
  | some key :: rest =>
    if key.required then l.keyFault else .ok { l with keys := none :: rest }
  | _ => .ok l

def noteKey (l : Lexer) : Except Fault Lexer :=
  if l.keyAllowed then do
    let required := !l.inFlow && decide (l.indent = l.cursor.column)
    let l ← l.dropKey
    return { l with keys := some ⟨required, l.tokens.size, l.cursor.mark⟩ :: l.keys.drop 1 }
  else .ok l

def closeBlocks (column : Int) : List Int → Lexer → Lexer
  | [], l => l
  | i :: outer, l =>
    if column < l.indent then closeBlocks column outer { l.push .blockEnd with indent := i, outer }
    else l

def unroll (l : Lexer) (column : Int) : Lexer :=
  if l.inFlow then l else closeBlocks column l.outer l

/-- A block opened, if a column is indented further than the current one. Its token
goes in front of the one with a given number, or to the end. -/
def roll (l : Lexer) (column : Nat) (number : Option Nat) (t : Token) (m : Mark) : Lexer :=
  if l.inFlow || decide ((column : Int) ≤ l.indent) then l
  else
    let l := match number with
      | some n => l.insertAt n t m
      | none => { l with tokens := l.tokens.push (t, m) }
    { l with outer := l.indent :: l.outer, indent := column }

/-- The cursor moved to the next token, over space, comments and line ends. A tab
may not stand where a key could begin. -/
def skipSpace : Nat → Lexer → Lexer
  | 0, l => l
  | fuel + 1, l =>
    let c := l.cursor
    let c := if c.mark.index = 0 && c.rest.head?.any (fun ch => ch.toNat = 0xFEFF) then c.skip 1 else c
    let tabs := l.inFlow || !l.keyAllowed
    let c := c.skipWhile fun ch => ch = ' ' || (tabs && ch = '\t')
    let c := match c.rest with
      | '#' :: _ => c.skipWhile fun _ => true
      | _ => c
    if atLineEnd c.rest && !c.rest.isEmpty then
      skipSpace fuel { l with cursor := c.skipBreak, keyAllowed := l.keyAllowed || !l.inFlow }
    else { l with cursor := c }

def finish (l : Lexer) : Except Fault Lexer := do
  let l ← (l.unroll (-1)).dropKey
  return l.push .streamEnd

def documentSign (l : Lexer) (t : Token) : Except Fault Lexer := do
  let l ← (l.unroll (-1)).dropKey
  return { l.sign t 3 with keyAllowed := false }

def directiveLine (l : Lexer) : Except Fault Lexer := do
  let l ← (l.unroll (-1)).dropKey
  let (d, c) ← readDirective (l.cursor.skip 1)
  return { l.push (.directive d) with cursor := c, keyAllowed := false }

def openFlow (l : Lexer) (t : Token) : Except Fault Lexer := do
  let l ← l.noteKey
  return { l.sign t 1 with keys := none :: l.keys, keyAllowed := true }

def closeFlow (l : Lexer) (t : Token) : Except Fault Lexer := do
  let l ← l.dropKey
  return { l.sign t 1 with keys := if l.inFlow then l.keys.drop 1 else l.keys, keyAllowed := false }

def flowComma (l : Lexer) : Except Fault Lexer := do
  let l ← l.dropKey
  return { l.sign .flowEntry 1 with keyAllowed := true }

def blockDash (l : Lexer) : Except Fault Lexer := do
  if !l.inFlow && !l.keyAllowed then
    l.fault "block sequence entries are not allowed in this context"
  else
    let l ← (l.roll l.cursor.column none .blockSequenceStart l.cursor.mark).dropKey
    return { l.sign .blockEntry 1 with keyAllowed := true }

def explicitKey (l : Lexer) : Except Fault Lexer := do
  if !l.inFlow && !l.keyAllowed then
    l.fault "mapping keys are not allowed in this context"
  else
    let l ← (l.roll l.cursor.column none .blockMappingStart l.cursor.mark).dropKey
    return { l.sign .key 1 with keyAllowed := !l.inFlow }

/-- A colon: it turns the possible key into one. -/
def colon (l : Lexer) : Except Fault Lexer :=
  match l.keys with
  | some key :: rest =>
    let l := { l with keys := none :: rest }
    let l := l.insertAt key.number .key key.mark
    let l := l.roll key.mark.column (some key.number) .blockMappingStart key.mark
    .ok { l.sign .value 1 with keyAllowed := false }
  | _ =>
    if !l.inFlow && !l.keyAllowed then
      l.fault "mapping values are not allowed in this context"
    else
      let l := l.roll l.cursor.column none .blockMappingStart l.cursor.mark
      .ok { l.sign .value 1 with keyAllowed := !l.inFlow }

def lexeme (l : Lexer) (read : Lexer → Except Fault (Token × Bool × Cursor)) :
    Except Fault Lexer := do
  let l ← l.noteKey
  let (t, keyAllowed, c) ← read l
  return { l.push t with cursor := c, keyAllowed }

def blockScalar (l : Lexer) (literal : Bool) : Except Fault Lexer := do
  let l ← l.dropKey
  let (s, c) ← readBlock literal l.indent (l.cursor.skip 1)
  return { l.push (.scalar false s) with cursor := c, keyAllowed := true }

def quotedScalar (single : Bool) (l : Lexer) : Except Fault (Token × Bool × Cursor) := do
  let (s, c) ← readQuoted single (l.cursor.rest.length + 1) [] (l.cursor.skip 1)
  return (.scalar false s, false, c)

def plainScalar (l : Lexer) : Except Fault (Token × Bool × Cursor) := do
  let (s, broken, c) ←
    readPlain l.inFlow (l.indent + 1).toNat (l.cursor.rest.length + 1) [] .none l.cursor
  return (.scalar true s, broken, c)

def tagLexeme (l : Lexer) : Except Fault (Token × Bool × Cursor) := do
  let (handle, suffix, c) ← readTag l.inFlow l.cursor
  return (.tag handle suffix, false, c)

def nameLexeme (make : String → Token) (l : Lexer) : Except Fault (Token × Bool × Cursor) := do
  let (s, c) ← readName (l.cursor.skip 1)
  return (make s, false, c)

def startsPlain (flow : Bool) (c : Char) (rest : List Char) : Bool :=
  let indicators := ['-', '?', ':', ',', '[', ']', '{', '}', '#', '&', '*', '!', '|', '>',
    Char.ofNat 39, '"', '%', '@', Char.ofNat 96]
  !(isBlank c || isBreak c || indicators.contains c) ||
    (c = '-' && !rest.head?.any isBlank) ||
    (!flow && (c = '?' || c = ':') && !atBlankOrEnd rest)

def next (l : Lexer) : Except Fault Lexer := do
  let l ← (skipSpace (l.cursor.rest.length + 1) l).dropStaleKeys
  let l := l.unroll l.cursor.column
  match l.cursor.rest with
  | [] => l.finish
  | ch :: rest =>
    if l.cursor.column = 0 && ch = '%' then l.directiveLine
    else if l.cursor.atMarker '-' then l.documentSign .documentStart
    else if l.cursor.atMarker '.' then l.documentSign .documentEnd
    else if ch = '[' then l.openFlow .flowSequenceStart
    else if ch = '{' then l.openFlow .flowMappingStart
    else if ch = ']' then l.closeFlow .flowSequenceEnd
    else if ch = '}' then l.closeFlow .flowMappingEnd
    else if ch = ',' then l.flowComma
    else if ch = '-' && atBlankOrEnd rest then l.blockDash
    else if ch = '?' && (l.inFlow || atBlankOrEnd rest) then l.explicitKey
    else if ch = ':' && (l.inFlow || atBlankOrEnd rest) then l.colon
    else if ch = '*' then l.lexeme (nameLexeme .reference)
    else if ch = '&' then l.lexeme (nameLexeme .anchor)
    else if ch = '!' then l.lexeme tagLexeme
    else if ch = '|' && !l.inFlow then l.blockScalar true
    else if ch = '>' && !l.inFlow then l.blockScalar false
    else if ch = Char.ofNat 39 then l.lexeme (quotedScalar true)
    else if ch = '"' then l.lexeme (quotedScalar false)
    else if startsPlain l.inFlow ch rest then l.lexeme plainScalar
    else l.fault "found character that cannot start any token"

def run : Nat → Lexer → Except Fault Lexer
  | 0, l => .ok l
  | fuel + 1, l => do
    let l' ← l.next
    if (l'.tokens.back?.map Prod.fst) = some .streamEnd then return l' else run fuel l'

end Lexer

/-- The tokens of a text. A mark of the byte order in front of it is no part of it. -/
def Token.scan (s : String) : Except Fault (List (Token × Mark)) := do
  let cs := match s.toList with
    | ch :: cs => if ch.toNat = 0xFEFF then cs else ch :: cs
    | [] => []
  if cs.all isAllowed then
    let l ← Lexer.run (cs.length + 2) (.start cs)
    return l.tokens.toList
  else .error ⟨"control characters are not allowed", ⟨0, 0, 0⟩⟩

end ReleaseOperator.Yaml
