import ReleaseOperator.Decimal.Shortest

/-!
# Json values

The tree of free values: overrides, merged values and the bodies of requests.
Whole numbers and floating point numbers are different values. An object is a
list of fields; `Json.put` keeps it ordered by key and free of repetitions, so
two objects with the same fields are the same list, whatever the order in which
the fields came.
-/

namespace ReleaseOperator

/-- A value. A `real` is given by the 64 bits of a finite double. -/
inductive Json where
  | null
  | bool (b : Bool)
  | whole (i : Int)
  | real (bits : Nat)
  | text (s : String)
  | array (items : List Json)
  | object (fields : List (String × Json))
  deriving Repr, Inhabited, BEq

namespace Json

/-- The fields with one more, which replaces an earlier field of its key. Fields
are ordered by key. -/
def put (key : String) (v : Json) : List (String × Json) → List (String × Json)
  | [] => [(key, v)]
  | (k, w) :: rest =>
    if key = k then (key, v) :: rest
    else if key < k then (key, v) :: (k, w) :: rest
    else (k, w) :: put key v rest

/-- The object of some fields in any order; the last of several fields of one key
counts. -/
def ofFields (fields : List (String × Json)) : Json :=
  object (fields.foldl (fun acc kv => put kv.1 kv.2 acc) [])

def lookup (key : String) : List (String × Json) → Option Json
  | [] => none
  | (k, v) :: rest => if key = k then some v else lookup key rest

def remove (key : String) (fields : List (String × Json)) : List (String × Json) :=
  fields.filter fun kv => kv.1 ≠ key

def get? (key : String) : Json → Option Json
  | object fields => lookup key fields
  | _ => none

def isObject : Json → Bool
  | object _ => true
  | _ => false

def isNull : Json → Bool
  | null => true
  | _ => false

def ofText? : Option String → Json
  | some s => text s
  | none => null

def ofInt? : Option Int → Json
  | some i => whole i
  | none => null

def ofTexts (ss : List String) : Json :=
  array (ss.map text)

@[simp] theorem lookup_nil (key : String) : lookup key [] = none := rfl

theorem lookup_put_self (key : String) (v : Json) (fields : List (String × Json)) :
    lookup key (put key v fields) = some v := by
  induction fields with
  | nil => simp [put, lookup]
  | cons kw rest ih =>
    obtain ⟨k, w⟩ := kw
    unfold put
    split
    · simp [lookup]
    · split
      · simp [lookup]
      · rename_i hne _
        simp [lookup, hne, ih]

theorem lookup_put_of_ne {key other : String} (h : other ≠ key) (v : Json)
    (fields : List (String × Json)) :
    lookup other (put key v fields) = lookup other fields := by
  induction fields with
  | nil => simp [put, lookup, h]
  | cons kw rest ih =>
    obtain ⟨k, w⟩ := kw
    unfold put
    split
    · rename_i e
      subst e
      simp [lookup, h]
    · split
      · simp [lookup, h]
      · simp only [lookup]
        split <;> simp_all

end Json

/-- How whole-valued and other doubles are written in Json: positionally from
`10 ^ -5` up to sixteen digits before the point, with a signed exponent
elsewhere. -/
def Json.realFormat : Decimal.Format := ⟨-5, 15, "+"⟩

end ReleaseOperator
