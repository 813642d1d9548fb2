import ReleaseOperator.Yaml.Event

/-!
# Nodes

A document as a tree, with each alias replaced by the node that it names. So that
this comes to an end, and soon enough, nodes may be nested only so deep and aliases
be followed only so often.

Anchors are numbered: the number of an anchor is the number of names that are bound
so far, and a number leads to the last node that was given it.
-/

namespace ReleaseOperator.Yaml

/-- A node of a document. A scalar tells whether it was written plain. -/
inductive Node where
  | scalar (tag : Option String) (plain : Bool) (text : String)
  | sequence (tag : Option String) (items : List Node)
  | mapping (tag : Option String) (entries : List (Node × Node))
  deriving Repr, Inhabited

def Node.void : Node := .scalar none true ""

inductive Problem where
  | malformed (f : Fault)
  | unknownAnchor (name : String)
  | tooDeep
  | tooManyAliases
  | manyDocuments
  /-- A document is not what is asked for. -/
  | unexpected (detail : String)
  deriving Repr, DecidableEq

def Problem.message : Problem → String
  | malformed f => f.message
  | unknownAnchor n => "unknown anchor " ++ n
  | tooDeep => "recursion limit exceeded"
  | tooManyAliases => "repetition limit exceeded"
  | manyDocuments => "deserializing from YAML containing more than one document is not supported"
  | unexpected d => d

structure Document where
  events : Array Event
  /-- What each alias leads to, by the place of the alias: a number. -/
  targets : List (Nat × Nat)
  /-- The place of the node with a number. -/
  places : List (Nat × Nat)

namespace Document

def empty : Document := ⟨#[], [], []⟩

/-- A document while its events are gathered, with the numbers of the names that are
bound. -/
structure Gathering where
  document : Document
  names : List (String × Nat)

namespace Gathering

def start : Gathering := ⟨.empty, []⟩

def bind (g : Gathering) : Option String → Gathering
  | none => g
  | some name =>
    let n := g.names.length
    { document := { g.document with places := (n, g.document.events.size) :: g.document.places }
      names := (name, n) :: g.names.filter fun kv => kv.1 ≠ name }

def push (g : Gathering) (e : Event) : Gathering :=
  { g with document := { g.document with events := g.document.events.push e } }

/-- One more event with what it binds or looks up. -/
def add (g : Gathering) (e : Event) : Except Problem Gathering :=
  match e with
  | .reference name =>
    match g.names.lookup name with
    | some n =>
      let d := g.document
      .ok ({ g with document := { d with targets := (d.events.size, n) :: d.targets } }.push e)
    | none => .error (.unknownAnchor name)
  | .scalar anchor _ _ _ => .ok ((g.bind anchor).push e)
  | .sequenceStart anchor _ => .ok ((g.bind anchor).push e)
  | .mappingStart anchor _ => .ok ((g.bind anchor).push e)
  | _ => .ok (g.push e)

end Gathering

def ofEvents : Gathering → List Event → Except Problem (List Document)
  | _, [] => .ok []
  | _, .documentStart :: rest => ofEvents .start rest
  | g, .documentEnd :: rest => do
    let ds ← ofEvents .start rest
    return g.document :: ds
  | g, e :: rest => do
    let g ← g.add e
    ofEvents g rest

def depthLimit : Nat := 128

/-- How often aliases may be followed for each event of a document. -/
def aliasLimit : Nat := 100

/-- A node, the place behind it, and how often aliases may still be followed. -/
abbrev Reading := Except Problem (Node × Nat × Nat)

mutual

def nodeAt (d : Document) (depth place jumps : Nat) : Reading :=
  match d.targets.lookup place with
  | none => contentAt d depth place jumps
  | some n =>
    match jumps, d.places.lookup n with
    | jumps + 1, some target => do
      let (node, _, jumps) ← contentAt d depth target jumps
      return (node, place + 1, jumps)
    | _, _ => .error .tooManyAliases
termination_by (depth, 1, 0)

def contentAt (d : Document) (depth place jumps : Nat) : Reading :=
  match d.events[place]? with
  | some (.scalar _ tag plain text) => .ok (.scalar tag plain text, place + 1, jumps)
  | some (.sequenceStart _ tag) =>
    match depth with
    | 0 => .error .tooDeep
    | depth + 1 => do
      let (items, next, jumps) ← nodesAt d depth d.events.size (place + 1) jumps []
      return (.sequence tag items, next, jumps)
  | some (.mappingStart _ tag) =>
    match depth with
    | 0 => .error .tooDeep
    | depth + 1 => do
      let (parts, next, jumps) ← nodesAt d depth d.events.size (place + 1) jumps []
      return (.mapping tag (pairs parts), next, jumps)
  | _ => .ok (.void, place + 1, jumps)
termination_by (depth, 0, 0)

/-- The nodes from a place up to the end of their collection. -/
def nodesAt (d : Document) (depth fuel place jumps : Nat) (acc : List Node) :
    Except Problem (List Node × Nat × Nat) :=
  match fuel with
  | 0 => .ok (acc.reverse, place, jumps)
  | fuel + 1 =>
    match d.events[place]? with
    | none => .ok (acc.reverse, place, jumps)
    | some .sequenceEnd => .ok (acc.reverse, place + 1, jumps)
    | some .mappingEnd => .ok (acc.reverse, place + 1, jumps)
    | some _ => do
      let (node, next, jumps) ← nodeAt d depth place jumps
      nodesAt d depth fuel next jumps (node :: acc)
termination_by (depth, 2, fuel)

def pairs : List Node → List (Node × Node)
  | k :: v :: rest => (k, v) :: pairs rest
  | _ => []
termination_by ns => (0, 0, ns.length)

end

def root (d : Document) : Except Problem Node :=
  if d.events.isEmpty then .ok .void
  else (nodeAt d depthLimit 0 (d.events.size * aliasLimit)).map Prod.fst

/-- The documents of a text; an empty text is one document without content. -/
def ofText? (s : String) : Except Problem (List Document) :=
  match Event.ofText? s with
  | .error f => .error (.malformed f)
  | .ok events => do
    let ds ← ofEvents .start events
    return if ds.isEmpty then [.empty] else ds

end Document

def Node.allOfText? (s : String) : Except Problem (List Node) := do
  (← Document.ofText? s).mapM Document.root

def Node.ofText? (s : String) : Except Problem Node := do
  match ← Document.ofText? s with
  | [d] => d.root
  | _ => .error .manyDocuments

end ReleaseOperator.Yaml
