import ReleaseOperator.Json.Value

/-!
# Decoding records

Readers of typed data from values. A reader answers `none` when the value does
not fit. A record is an object, whose unknown fields are ignored, or the list of
its fields in order, which may be cut short. A field may be required, may have a
default that stands in when it is missing, or may be optional, and then the null
value stands for its absence.
-/

namespace ReleaseOperator.Json

abbrev Record := String → Option Json

/-- The fields of a record, given their names in order. -/
def record? (names : List String) : Json → Option Record
  | object fields => some fun key => lookup key fields
  | array items =>
    if items.length ≤ names.length then
      some fun key => lookup key (names.zip items)
    else none
  | _ => none

/-- The fields of a record as it was written, which may not repeat any of them. -/
def writtenRecord? (names : List String) (v : Json) : Option Record :=
  match v with
  | object fields =>
    if names.all fun n => (fields.filter fun kv => kv.1 = n).length ≤ 1 then record? names v
    else none
  | v => record? names v

def fields? : Json → Option Record
  | object fields => some fun key => lookup key fields
  | _ => none

def required (read : Json → Option α) (field : Option Json) : Option α :=
  field.bind read

/-- A field with a value that stands in when it is missing. -/
def defaulted (d : α) (read : Json → Option α) : Option Json → Option α
  | none => some d
  | some v => read v

/-- A field that may be missing or null. -/
def optional (read : Json → Option α) : Option Json → Option (Option α)
  | none => some none
  | some null => some none
  | some v => (read v).map some

def text? : Json → Option String
  | text s => some s
  | _ => none

def bool? : Json → Option Bool
  | bool b => some b
  | _ => none

def wholeIn? (low high : Int) : Json → Option Int
  | whole i => if low ≤ i ∧ i ≤ high then some i else none
  | _ => none

def int64? : Json → Option Int :=
  wholeIn? (-0x8000000000000000) 0x7FFFFFFFFFFFFFFF

def int32? : Json → Option Int :=
  wholeIn? (-0x80000000) 0x7FFFFFFF

def list? (read : Json → Option α) : Json → Option (List α)
  | array items => items.mapM read
  | _ => none

def texts? : Json → Option (List (String × String))
  | object fields => fields.mapM fun (k, v) => (text? v).map fun s => (k, s)
  | _ => none

/-- Fields of which each, where it is given, must fit a reader. -/
def fitting (read : Json → Option α) (f : Record) (names : List String) : Option Unit :=
  if names.all fun n => (optional read (f n)).isSome then some () else none

/-- One of some names: a text, or an object with the name as its only field and
the null value in it. -/
def choice? (ofName? : String → Option α) : Json → Option α
  | text s => ofName? s
  | object [(k, null)] => ofName? k
  | _ => none

end ReleaseOperator.Json
