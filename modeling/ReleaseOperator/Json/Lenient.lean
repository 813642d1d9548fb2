import ReleaseOperator.Json.Value

/-!
# Lenient reading

Fields of an object that is read for what it offers: a field that is missing, null
or of another kind than asked for counts as not given. Nothing is ever refused.
-/

namespace ReleaseOperator.Json

variable (v : Json) (key : String)

def given? : Option Json :=
  match v.get? key with
  | some null => none
  | other => other

def fieldAt : Json := (v.given? key).getD null

def textAt? : Option String :=
  match v.given? key with
  | some (text s) => some s
  | _ => none

def textOr (other : String) : String := (v.textAt? key).getD other

def textAt : String := v.textOr key ""

def wholeAt? : Option Int :=
  match v.given? key with
  | some (whole i) => some i
  | _ => none

/-- A natural number with another in its place; negative ones count as zero. -/
def natOr (other : Nat) : Nat := ((v.wholeAt? key).map Int.toNat).getD other

def boolOr (other : Bool) : Bool :=
  match v.given? key with
  | some (bool b) => b
  | _ => other

def boolAt : Bool := v.boolOr key false

def itemsAt : List Json :=
  match v.given? key with
  | some (array items) => items
  | _ => []

def fieldsAt : List (String × Json) :=
  match v.given? key with
  | some (object fields) => fields
  | _ => []

/-- The text that a value is, empty when it is none. -/
def asText : Json → String
  | text s => s
  | _ => ""

def textsAt : List String := (v.itemsAt key).map asText

def tableAt : List (String × String) := (v.fieldsAt key).map fun kv => (kv.1, kv.2.asText)

end ReleaseOperator.Json
