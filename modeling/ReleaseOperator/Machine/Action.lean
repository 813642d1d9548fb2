/-!
# Actions

The four kinds of work that can be done on a release.
-/

namespace ReleaseOperator

/-- What is done on a release. -/
inductive Action where
  | install
  | update
  | upgrade
  | delete
  deriving Repr, DecidableEq

namespace Action

def all : List Action := [install, update, upgrade, delete]

def workName : Action → String
  | install => "install"
  | update => "update"
  | upgrade => "upgrade"
  | delete => "uninstall"

def ofName? (s : String) : Option Action :=
  all.find? fun a => a.workName = s

theorem ofName?_workName (a : Action) : ofName? a.workName = some a := by
  cases a <;> decide

end Action

end ReleaseOperator
