import ReleaseOperator.Json.Value
import ReleaseOperator.Text.Search

/-!
# Hidden texts

What a reader of some format says about a malformed text is not fixed, so views do
not show it. What a message says besides is kept.
-/

namespace ReleaseOperator.View

def hidden : String := "<parse error>"

/-- The characters of a text up to and with a mark, and those behind it. -/
def cutBehind? (mark : List Char) : List Char → Option (List Char × List Char)
  | [] => none
  | c :: cs =>
    match Text.dropStart? mark (c :: cs) with
    | some rest => some (mark, rest)
    | none => (cutBehind? mark cs).map fun (a, b) => (c :: a, b)

/-- Hides what was wrong with an output of Helm. -/
def hideOutput (s : List Char) : List Char :=
  match cutBehind? "Failed to parse helm output: ".toList s with
  | some (a, _) => a ++ hidden.toList
  | none => s

/-- Hides what was wrong with values, unless they were read and are no map. -/
def hideValues (s : List Char) : List Char :=
  match cutBehind? "Invalid values in ".toList s with
  | none => s
  | some (a, rest) =>
    match cutBehind? ": ".toList rest with
    | none => s
    | some (origin, reason) =>
      if Text.startsWith "expected a map of values, found ".toList reason then s
      else a ++ origin ++ hidden.toList

def hide (s : String) : String :=
  String.ofList (hideValues (hideOutput s.toList))

mutual

def hideMessages : Json → Json
  | .array vs => .array (hideItems vs)
  | .object fs => .object (hideFields fs)
  | v => v

def hideItems : List Json → List Json
  | [] => []
  | v :: rest => hideMessages v :: hideItems rest

def hideFields : List (String × Json) → List (String × Json)
  | [] => []
  | (k, v) :: rest =>
    (k, match k, v with
      | "message", .text s => .text (hide s)
      | _, v => hideMessages v) :: hideFields rest

end

end ReleaseOperator.View
