import ReleaseOperator.Json.Value

/-!
# Merge patches

A merge patch says how to change a value: its fields are merged into those of the
value, a null field removes the field of its key, and anything that is no object
takes the place of the value.
-/

namespace ReleaseOperator.Json

def fieldsOf : Json → List (String × Json)
  | object fields => fields
  | _ => []

mutual

def patch (target : Json) : Json → Json
  | object changes => object (patchFields (fieldsOf target) changes)
  | other => other

def patchFields (target : List (String × Json)) : List (String × Json) → List (String × Json)
  | [] => target
  | (key, change) :: rest =>
    let target :=
      if change.isNull then remove key target
      else put key (patch ((lookup key target).getD null) change) target
    patchFields target rest

end

mutual

/-- Whether two values are equal as numbers and texts: the two zeros of floating
point count as one. -/
def agrees : Json → Json → Bool
  | null, null => true
  | bool a, bool b => a == b
  | whole a, whole b => a == b
  | real a, real b => a == b || (a % Nat.pow 2 63 == 0 && b % Nat.pow 2 63 == 0)
  | text a, text b => a == b
  | array as, array bs => itemsAgree as bs
  | object as, object bs => fieldsAgree as bs
  | _, _ => false

def itemsAgree : List Json → List Json → Bool
  | [], [] => true
  | a :: as, b :: bs => agrees a b && itemsAgree as bs
  | _, _ => false

def fieldsAgree : List (String × Json) → List (String × Json) → Bool
  | [], [] => true
  | (k, a) :: as, (l, b) :: bs => k == l && agrees a b && fieldsAgree as bs
  | _, _ => false

end

end ReleaseOperator.Json
