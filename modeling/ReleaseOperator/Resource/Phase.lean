import ReleaseOperator.Json.Decode

/-!
# Phases

The phase of a resource is the coarse answer to "how far is it?" that users read
in its status.
-/

namespace ReleaseOperator

inductive Phase where
  | preInstalling
  | installing
  | uninstalling
  | preUpgrading
  | upgrading
  | ready
  | completed
  | notNeeded
  | failed
  | reconciling
  deriving Repr, DecidableEq

namespace Phase

def all : List Phase :=
  [preInstalling, installing, uninstalling, preUpgrading, upgrading, ready, completed, notNeeded,
    failed, reconciling]

def name : Phase → String
  | preInstalling => "PreInstalling"
  | installing => "Installing"
  | uninstalling => "Uninstalling"
  | preUpgrading => "PreUpgrading"
  | upgrading => "Upgrading"
  | ready => "Ready"
  | completed => "Completed"
  | notNeeded => "NotNeeded"
  | failed => "Failed"
  | reconciling => "Reconciling"

def ofName? (s : String) : Option Phase :=
  all.find? fun p => p.name = s

/-- A phase in which a resource is never touched again. -/
def isTerminal : Phase → Bool
  | completed => true
  | notNeeded => true
  | _ => false

def ofJson? : Json → Option Phase :=
  Json.choice? ofName?

theorem ofName?_name (p : Phase) : ofName? p.name = some p := by
  cases p <;> decide

end Phase

end ReleaseOperator
