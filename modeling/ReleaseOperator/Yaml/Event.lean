import ReleaseOperator.Yaml.Token

/-!
# Events

The structure of a Yaml text as a sequence of events: documents, collections that
open and close, scalars and aliases. The grammar is read one event at a time. What
is expected next is a state, and what is expected after an open collection waits
on a stack. A value that is left out counts as an empty plain scalar.
-/

namespace ReleaseOperator.Yaml

/-- The events of a text. A scalar tells whether it was written plain. -/
inductive Event where
  | documentStart
  | documentEnd
  | reference (name : String)
  | scalar (anchor tag : Option String) (plain : Bool) (text : String)
  | sequenceStart (anchor tag : Option String)
  | sequenceEnd
  | mappingStart (anchor tag : Option String)
  | mappingEnd
  deriving Repr, DecidableEq

inductive Expectation where
  | document (isFirst : Bool)
  | content
  | endOfDocument
  | blockNode
  | blockItem (isFirst : Bool)
  | indentlessItem
  | blockKey (isFirst : Bool)
  | blockValue
  | flowItem (isFirst : Bool)
  | pairKey
  | pairValue
  | pairEnd
  | flowKey (isFirst : Bool)
  | flowValue (isEmpty : Bool)
  | nothing
  deriving Repr, DecidableEq

/-- A text that is being read: the tokens left, the handles of tags, what is
expected now and what is expected later. -/
structure Grammar where
  tokens : List (Token × Mark)
  handles : List (String × String)
  expected : Expectation
  later : List Expectation

namespace Grammar

abbrev Step := Except Fault (Event × Grammar)

def standardHandles : List (String × String) :=
  [("!", "!"), ("!!", "tag:yaml.org,2002:")]

def peek (g : Grammar) : Token :=
  match g.tokens with
  | (t, _) :: _ => t
  | [] => .streamEnd

def drop (g : Grammar) : Grammar := { g with tokens := g.tokens.drop 1 }

def fault (g : Grammar) (problem : String) : Except Fault α :=
  match g.tokens with
  | (_, m) :: _ => .error ⟨problem, m⟩
  | [] => .error ⟨problem, ⟨0, 0, 0⟩⟩

def expect (g : Grammar) (e : Expectation) : Grammar := { g with expected := e }

/-- Something expected once the node at hand is complete. -/
def expectLater (g : Grammar) (e : Expectation) : Grammar := { g with later := e :: g.later }

def back (g : Grammar) : Grammar :=
  { g with expected := g.later.headD .nothing, later := g.later.drop 1 }

def leftOut (g : Grammar) : Step := .ok (.scalar none none true "", g)

def properties (g : Grammar) : Option String × Option (String × String) × Grammar :=
  match g.peek with
  | .anchor a =>
    match g.drop.peek with
    | .tag h s => (some a, some (h, s), g.drop.drop)
    | _ => (some a, none, g.drop)
  | .tag h s =>
    match g.drop.peek with
    | .anchor a => (some a, some (h, s), g.drop.drop)
    | _ => (none, some (h, s), g.drop)
  | _ => (none, none, g)

def fullTag (g : Grammar) : Option (String × String) → Except Fault (Option String)
  | none => .ok none
  | some (handle, suffix) =>
    if handle.isEmpty then .ok (some suffix)
    else
      match g.handles.lookup handle with
      | some start => .ok (some (start ++ suffix))
      | none => g.fault "found undefined tag handle"

/-- A node. In blocks it may be a block collection, and behind a key a sequence may
stand at the same column as the key. -/
def node (g : Grammar) (block indentless : Bool) : Step :=
  match g.peek with
  | .reference name => .ok (.reference name, g.drop.back)
  | _ => do
    let (anchor, tagParts, g) := g.properties
    let tag ← g.fullTag tagParts
    match g.peek with
    | .scalar plain text =>
      let tag := if tag = some "!" then none else tag
      return (.scalar anchor tag plain text, g.drop.back)
    | .flowSequenceStart => return (.sequenceStart anchor tag, g.expect (.flowItem true))
    | .flowMappingStart => return (.mappingStart anchor tag, g.expect (.flowKey true))
    | t =>
      if indentless && t = .blockEntry then
        return (.sequenceStart anchor tag, g.expect .indentlessItem)
      else if block && t = .blockSequenceStart then
        return (.sequenceStart anchor tag, g.expect (.blockItem true))
      else if block && t = .blockMappingStart then
        return (.mappingStart anchor tag, g.expect (.blockKey true))
      else if anchor.isSome || tag.isSome then
        return (.scalar anchor tag true "", g.back)
      else g.fault "did not find expected node content"

def directives : Nat → Bool → List (String × String) → Grammar → Except Fault Grammar
  | 0, _, handles, g => .ok { g with handles }
  | fuel + 1, versioned, handles, g =>
    match g.peek with
    | .directive (.version major minor) =>
      if versioned then g.fault "found duplicate %YAML directive"
      else if major ≠ 1 ∨ (minor ≠ 1 ∧ minor ≠ 2) then g.fault "found incompatible YAML document"
      else directives fuel true handles g.drop
    | .directive (.tag handle start) =>
      if (handles.lookup handle).isSome then g.fault "found duplicate %TAG directive"
      else directives fuel versioned ((handle, start) :: handles) g.drop
    | _ => .ok { g with handles := handles ++ standardHandles }

def dropDocumentEnds (g : Grammar) : Grammar :=
  { g with tokens := g.tokens.dropWhile fun t => t.1 = .documentEnd }

/-- Whether a token can only stand in front of the content of a document. -/
def beginsDocument : Token → Bool
  | .directive _ => true
  | .documentStart => true
  | _ => false

def document (g : Grammar) (isFirst : Bool) : Except Fault (Option Event × Grammar) := do
  let g := if isFirst then g else g.dropDocumentEnds
  if g.peek = .streamEnd then return (none, g.expect .nothing)
  else if isFirst && !beginsDocument g.peek then
    let g := { g with handles := standardHandles }
    return (some .documentStart, (g.expectLater .endOfDocument).expect .blockNode)
  else
    let g ← directives (g.tokens.length + 1) false [] g
    if g.peek = .documentStart then
      return (some .documentStart, (g.drop.expectLater .endOfDocument).expect .content)
    else g.fault "did not find expected <document start>"

/-- A node where one of some tokens means that it was left out. -/
def nodeUnless (g : Grammar) (missing : Token → Bool) (later : Expectation)
    (block indentless : Bool) : Step :=
  if missing g.peek then (g.expect later).leftOut else (g.expectLater later).node block indentless

def blockItem (g : Grammar) : Step :=
  match g.peek with
  | .blockEntry =>
    g.drop.nodeUnless (fun t => t = .blockEntry || t = .blockEnd) (.blockItem false) true false
  | .blockEnd => .ok (.sequenceEnd, g.drop.back)
  | _ => g.fault "did not find expected '-' indicator"

/-- An item of a sequence that stands at the column of its key, or its end. -/
def indentlessItem (g : Grammar) : Step :=
  match g.peek with
  | .blockEntry =>
    g.drop.nodeUnless
      (fun t => t = .blockEntry || t = .key || t = .value || t = .blockEnd) .indentlessItem true false
  | _ => .ok (.sequenceEnd, g.back)

/-- A token that follows a key or value that was left out of a block mapping. -/
def endsBlockPart (t : Token) : Bool := t = .key || t = .value || t = .blockEnd

def blockKey (g : Grammar) : Step :=
  match g.peek with
  | .key => g.drop.nodeUnless endsBlockPart .blockValue true true
  | .blockEnd => .ok (.mappingEnd, g.drop.back)
  | _ => g.fault "did not find expected key"

def blockValue (g : Grammar) : Step :=
  match g.peek with
  | .value => g.drop.nodeUnless endsBlockPart (.blockKey false) true true
  | _ => (g.expect (.blockKey false)).leftOut

/-- An item of a flow sequence, which may be a single pair, or its end. -/
def flowItem (g : Grammar) (isFirst : Bool) : Step := do
  if g.peek = .flowSequenceEnd then return (.sequenceEnd, g.drop.back)
  else
    let g ←
      if isFirst then pure g
      else if g.peek = .flowEntry then pure g.drop
      else g.fault "did not find expected ',' or ']'"
    match g.peek with
    | .key => return (.mappingStart none none, g.drop.expect .pairKey)
    | .flowSequenceEnd => return (.sequenceEnd, g.drop.back)
    | _ => (g.expectLater (.flowItem false)).node false false

/-- The key of a single pair. A key that is left out takes the next token with it. -/
def pairKey (g : Grammar) : Step :=
  if g.peek = .value || g.peek = .flowEntry || g.peek = .flowSequenceEnd then
    (g.drop.expect .pairValue).leftOut
  else (g.expectLater .pairValue).node false false

def pairValue (g : Grammar) : Step :=
  match g.peek with
  | .value =>
    g.drop.nodeUnless (fun t => t = .flowEntry || t = .flowSequenceEnd) .pairEnd false false
  | _ => (g.expect .pairEnd).leftOut

def flowKey (g : Grammar) (isFirst : Bool) : Step := do
  if g.peek = .flowMappingEnd then return (.mappingEnd, g.drop.back)
  else
    let g ←
      if isFirst then pure g
      else if g.peek = .flowEntry then pure g.drop
      else g.fault "did not find expected ',' or '\x7d'"
    match g.peek with
    | .key =>
      g.drop.nodeUnless
        (fun t => t = .value || t = .flowEntry || t = .flowMappingEnd) (.flowValue false) false false
    | .flowMappingEnd => return (.mappingEnd, g.drop.back)
    | _ => (g.expectLater (.flowValue true)).node false false

def flowValue (g : Grammar) (isEmpty : Bool) : Step :=
  if isEmpty then (g.expect (.flowKey false)).leftOut
  else
    match g.peek with
    | .value =>
      g.drop.nodeUnless (fun t => t = .flowEntry || t = .flowMappingEnd) (.flowKey false) false false
    | _ => (g.expect (.flowKey false)).leftOut

def step (g : Grammar) : Except Fault (Option Event × Grammar) :=
  let one (s : Step) : Except Fault (Option Event × Grammar) :=
    match s with
    | .ok (e, g) => .ok (some e, g)
    | .error e => .error e
  match g.expected with
  | .document isFirst => g.document isFirst
  | .content =>
    if beginsDocument g.peek || g.peek = .documentEnd || g.peek = .streamEnd then one g.back.leftOut
    else one (g.node true false)
  | .endOfDocument =>
    let g := if g.peek = .documentEnd then g.drop else g
    .ok (some .documentEnd, g.expect (.document false))
  | .blockNode => one (g.node true false)
  | .blockItem isFirst => one (if isFirst then g.drop.blockItem else g.blockItem)
  | .indentlessItem => one g.indentlessItem
  | .blockKey isFirst => one (if isFirst then g.drop.blockKey else g.blockKey)
  | .blockValue => one g.blockValue
  | .flowItem isFirst => one (if isFirst then g.drop.flowItem true else g.flowItem false)
  | .pairKey => one g.pairKey
  | .pairValue => one g.pairValue
  | .pairEnd => .ok (some .mappingEnd, g.expect (.flowItem false))
  | .flowKey isFirst => one (if isFirst then g.drop.flowKey true else g.flowKey false)
  | .flowValue isEmpty => one (g.flowValue isEmpty)
  | .nothing => .ok (none, g)

/-- All events, in reverse order in front of those already found. -/
def run : Nat → List Event → Grammar → Except Fault (List Event)
  | 0, acc, _ => .ok acc
  | fuel + 1, acc, g => do
    match ← g.step with
    | (some e, g) => run fuel (e :: acc) g
    | (none, _) => return acc

end Grammar

/-- The events of a text. Every token takes part in at most a few of them. -/
def Event.ofText? (s : String) : Except Fault (List Event) := do
  let tokens ← Token.scan s
  let events ← Grammar.run (8 * tokens.length + 16) [] ⟨tokens, [], .document true, []⟩
  return events.reverse

end ReleaseOperator.Yaml
