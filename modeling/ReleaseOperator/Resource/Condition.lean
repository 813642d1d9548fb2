import ReleaseOperator.Resource.Reason

/-!
# Conditions

A resource remembers its last few conditions, oldest first. An observation that
repeats the newest one of its type is not recorded again. Any other observation
goes to the end and takes the place of an earlier one with the same type and
reason; at most five are kept.
-/

namespace ReleaseOperator

/-- One observed transition. The reason is free text, since others may write
conditions too. -/
structure Condition where
  type : String
  reason : String
  verdict : Verdict
  message : String
  time : Option String
  deriving Repr, DecidableEq

namespace Condition

def readyType : String := "Ready"

def limit : Nat := 5

/-- The same observation, whenever it was made. -/
def sameObservation (c d : Condition) : Bool :=
  c.type = d.type && c.reason = d.reason && c.verdict = d.verdict && c.message = d.message

def sameTopic (c d : Condition) : Bool :=
  c.type = d.type && c.reason = d.reason

def newest? (type : String) (cs : List Condition) : Option Condition :=
  cs.reverse.find? fun c => c.type = type

/-- Whether a history already ends, for this type, in the same observation. -/
def repeats (cs : List Condition) (c : Condition) : Bool :=
  match newest? c.type cs with
  | some d => d.sameObservation c
  | none => false

def trim (cs : List Condition) : List Condition :=
  cs.drop (cs.length - limit)

def append (cs : List Condition) (c : Condition) : List Condition :=
  if repeats cs c then cs else trim (cs.filter (fun d => !d.sameTopic c) ++ [c])

def latestReady? (cs : List Condition) : Option Condition :=
  newest? readyType cs

def ofReason (r : Reason) (message time : String) : Condition :=
  ⟨readyType, r.name, r.verdict, message, some time⟩

/-- A condition as a value; its time is written even when there is none. -/
def toJson (c : Condition) : Json :=
  .ofFields [("type", .text c.type), ("reason", .text c.reason), ("status", .text c.verdict.name),
    ("message", .text c.message), ("lastTransitionTime", .ofText? c.time)]

def ofJson? (v : Json) : Option Condition := do
  let f ← v.record? ["type", "reason", "status", "message", "lastTransitionTime"]
  let type ← Json.required Json.text? (f "type")
  let reason ← Json.required Json.text? (f "reason")
  let verdict ← Json.required (Json.choice? Verdict.ofName?) (f "status")
  let message ← Json.defaulted "" Json.text? (f "message")
  let time ← Json.optional Json.text? (f "lastTransitionTime")
  return ⟨type, reason, verdict, message, time⟩

theorem append_of_repeats {cs : List Condition} {c : Condition} (h : repeats cs c = true) :
    append cs c = cs := by
  simp [append, h]

theorem append_of_not_repeats {cs : List Condition} {c : Condition} (h : repeats cs c = false) :
    append cs c = trim (cs.filter (fun d => !d.sameTopic c) ++ [c]) := by
  simp [append, h]

theorem length_trim_le (cs : List Condition) : (trim cs).length ≤ limit := by
  simp only [trim, List.length_drop]
  omega

end Condition

end ReleaseOperator
