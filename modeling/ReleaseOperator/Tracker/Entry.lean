import ReleaseOperator.Machine.Action
import ReleaseOperator.Machine.Stage

/-!
# Entries

What is remembered about one generation of a resource: the stage its work has
reached, the action chosen for it, the digest of the values last applied under
it, and when its installation was first announced.
-/

namespace ReleaseOperator

/-- The progress of one generation. -/
structure Entry where
  generation : Int
  stage : Stage
  action : Option Action
  digest : Option String
  preInstall : Option String
  deriving Repr, DecidableEq

namespace Entry

def fresh (generation : Int) (stage : Stage) : Entry :=
  ⟨generation, stage, none, none, none⟩

def setStage (e : Entry) (s : Stage) : Entry := { e with stage := s }

def pin (e : Entry) (a : Action) : Entry := { e with action := some a }

def setDigest (e : Entry) (d : String) : Entry := { e with digest := some d }

/-- The entry with its first announcement; a later one changes nothing. -/
def markPreInstall (e : Entry) (time : String) : Entry :=
  { e with preInstall := some (e.preInstall.getD time) }

/-- The entry with its work to be done again. -/
def rearm (e : Entry) : Entry := e.setStage .start

end Entry

end ReleaseOperator
