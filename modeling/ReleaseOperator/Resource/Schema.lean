import ReleaseOperator.Json.Value

/-!
# Schemas

What the cluster checks in an object before it stores it. A schema says what a place
may hold. Each field of a record has a text that explains it, and may be missing in one
of three ways: it must be given, it stands for a default, or it stands for nothing.
-/

namespace ReleaseOperator

/-- What holds when a field is missing. -/
inductive Absence where
  /-- The field must be given. -/
  | refused
  /-- A default is put in its place. -/
  | filled (v : Json)
  /-- The field has no value; it may also be null. -/
  | unset
  /-- The field is left out. -/
  | leftOut

/-- What a place may hold. A list says what its items are. -/
inductive Schema where
  | text
  | choice (words : List String)
  | whole
  | flag
  /-- An object that is not looked into. -/
  | free
  | list (about : String) (item : Schema)
  | record (fields : List (String × Absence × String × Schema))

namespace Absence

def isRefused : Absence → Bool
  | refused => true
  | _ => false

def isNullable : Absence → Bool
  | unset => true
  | _ => false

def toFields : Absence → List (String × Json)
  | refused => []
  | filled v => [("default", v)]
  | unset => [("nullable", .bool true)]
  | leftOut => []

end Absence

namespace Schema

def emptyText : Absence := .filled (.text "")

def emptyList : Absence := .filled (.array [])

mutual

def toFields (nullable : Bool) : Schema → List (String × Json)
  | text => [("type", .text "string")]
  | choice words =>
    let other := if nullable then [Json.null] else []
    [("type", .text "string"), ("enum", .array (words.map Json.text ++ other))]
  | whole => [("type", .text "integer"), ("format", .text "int64")]
  | flag => [("type", .text "boolean")]
  | free => [("type", .text "object"), ("x-kubernetes-preserve-unknown-fields", .bool true)]
  | list about item =>
    [("type", .text "array"),
      ("items", .ofFields (("description", .text about) :: toFields false item))]
  | record fields =>
    let needed := (required fields).mergeSort fun a b => decide (a ≤ b)
    let needed := if needed.isEmpty then [] else [("required", Json.ofTexts needed)]
    [("type", .text "object"), ("properties", .ofFields (properties fields))] ++ needed

def properties : List (String × Absence × String × Schema) → List (String × Json)
  | [] => []
  | (name, absence, about, s) :: rest =>
    (name, .ofFields ([("description", .text about)] ++ absence.toFields ++
      toFields absence.isNullable s)) :: properties rest

def required : List (String × Absence × String × Schema) → List String
  | [] => []
  | (name, absence, _, _) :: rest =>
    if absence.isRefused then name :: required rest else required rest

end

def document (title about : String) (s : Schema) : Json :=
  .ofFields ([("title", .text title), ("description", .text about)] ++ toFields false s)

end Schema

end ReleaseOperator
