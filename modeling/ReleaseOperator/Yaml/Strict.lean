import ReleaseOperator.Yaml.Node
import ReleaseOperator.Yaml.Scalar

/-!
# Strict values from Yaml

A document as a value that keeps the kinds of keys and the tags of applications. No
mapping may have one key twice.
-/

namespace ReleaseOperator.Yaml

/-- A value with keys of any kind. -/
inductive Value where
  | atom (a : Atom)
  | sequence (items : List Value)
  | mapping (entries : List (Value × Value))
  | tagged (name : String) (v : Value)
  deriving Repr, BEq

namespace Value

def untag : Value → Value
  | tagged _ v => untag v
  | v => v

def text? (v : Value) : Option String :=
  match v.untag with
  | atom (.text s) => some s
  | _ => none

def isNull : Value → Bool
  | atom .null => true
  | _ => false

def hasRepeatedKey : List (Value × Value) → Bool
  | [] => false
  | (k, _) :: rest => (rest.any fun kv => kv.1 == k) || hasRepeatedKey rest

/-- A value with the tag of its node, if that is the tag of an application. -/
def withTag (tag : Option String) (v : Value) : Except Problem Value :=
  match tag.bind fun t => Text.afterStart? t "!" with
  | none => .ok v
  | some name =>
    if name.isEmpty then .error (.unexpected "empty YAML tag is not allowed") else .ok (tagged name v)

/-- The fields of a mapping, all of whose keys are texts and differ. -/
def fields? (entries : List (Value × Value)) : Except Problem (List (String × Value)) := do
  let fields ← entries.mapM fun (k, v) =>
    match k.text? with
    | some s => .ok (s, v)
    | none => .error (.unexpected "invalid type: expected a string key")
  return fields

/-- The field of a name, which may stand there once. -/
def field? (fields : List (String × Value)) (name : String) : Except Problem (Option Value) :=
  match fields.filter fun kv => kv.1 = name with
  | [] => .ok none
  | [(_, v)] => .ok (some v)
  | _ => .error (.unexpected "duplicate field")

end Value

namespace Node

mutual

def toValue? : Node → Except Problem Value
  | scalar tag plain s =>
    match Atom.ofScalar? tag plain s with
    | some a => Value.withTag tag (.atom a)
    | none => .error (.unexpected "invalid value")
  | sequence tag items =>
    match itemsToValue? items with
    | .ok vs => Value.withTag tag (.sequence vs)
    | .error e => .error e
  | mapping tag entries =>
    match entriesToValue? entries with
    | .error e => .error e
    | .ok kvs =>
      if Value.hasRepeatedKey kvs then .error (.unexpected "duplicate entry")
      else Value.withTag tag (.mapping kvs)

def itemsToValue? : List Node → Except Problem (List Value)
  | [] => .ok []
  | n :: rest =>
    match toValue? n with
    | .error e => .error e
    | .ok v =>
      match itemsToValue? rest with
      | .error e => .error e
      | .ok vs => .ok (v :: vs)

def entriesToValue? : List (Node × Node) → Except Problem (List (Value × Value))
  | [] => .ok []
  | (k, n) :: rest =>
    match toValue? k with
    | .error e => .error e
    | .ok key =>
      match toValue? n with
      | .error e => .error e
      | .ok v =>
        match entriesToValue? rest with
        | .error e => .error e
        | .ok kvs => .ok ((key, v) :: kvs)

end

end Node

def readAll? (s : String) : Except Problem (List Value) := do
  (← Node.allOfText? s).mapM Node.toValue?

end ReleaseOperator.Yaml
