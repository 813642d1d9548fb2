import ReleaseOperator.Json.Value
import ReleaseOperator.Yaml.Node
import ReleaseOperator.Yaml.Scalar

/-!
# Free values from Yaml

A document as a free value. Keys are the texts of scalars, of several entries with
one key the last counts, and a double that is not finite becomes the null value.
Tags of an application are not known here and are refused.
-/

namespace ReleaseOperator.Yaml

def Atom.toJson : Atom → Json
  | null => .null
  | bool b => .bool b
  | whole i => .whole i
  | real bits => if Binary64.isFinite bits then .real bits else .null
  | text s => .text s

namespace Node

def isApplicationTag (tag : Option String) : Bool :=
  tag.any fun t => Text.hasStart t "!"

def tagProblem : Problem := .unexpected "invalid type: enum, expected any valid JSON value"

def key? : Node → Except Problem String
  | scalar _ _ s => .ok s
  | _ => .error (.unexpected "invalid type: expected a string key")

mutual

def toJson? : Node → Except Problem Json
  | scalar tag plain s =>
    if isApplicationTag tag then .error tagProblem
    else
      match Atom.ofScalar? tag plain s with
      | some a => .ok a.toJson
      | none => .error (.unexpected "invalid value")
  | sequence tag items =>
    if isApplicationTag tag then .error tagProblem
    else
      match itemsToJson? items with
      | .ok vs => .ok (.array vs)
      | .error e => .error e
  | mapping tag entries =>
    if isApplicationTag tag then .error tagProblem
    else
      match entriesToJson? entries with
      | .ok fields => .ok (.ofFields fields)
      | .error e => .error e

def itemsToJson? : List Node → Except Problem (List Json)
  | [] => .ok []
  | n :: rest =>
    match toJson? n with
    | .error e => .error e
    | .ok v =>
      match itemsToJson? rest with
      | .error e => .error e
      | .ok vs => .ok (v :: vs)

def entriesToJson? : List (Node × Node) → Except Problem (List (String × Json))
  | [] => .ok []
  | (k, n) :: rest =>
    match key? k with
    | .error e => .error e
    | .ok key =>
      match toJson? n with
      | .error e => .error e
      | .ok v =>
        match entriesToJson? rest with
        | .error e => .error e
        | .ok fields => .ok ((key, v) :: fields)

end

end Node

def readValue? (s : String) : Except Problem Json := do
  (← Node.ofText? s).toJson?

end ReleaseOperator.Yaml
