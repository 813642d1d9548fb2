import ReleaseOperator.Resource.Phase

/-!
# Reasons

A condition of a resource names the event that brought it about. Each event says
whether the resource is ready, and into which phase it puts the resource.
-/

namespace ReleaseOperator

inductive Verdict where
  | yes
  | no
  | unknown
  deriving Repr, DecidableEq

namespace Verdict

def all : List Verdict := [yes, no, unknown]

def name : Verdict → String
  | yes => "True"
  | no => "False"
  | unknown => "Unknown"

def ofName? (s : String) : Option Verdict :=
  all.find? fun v => v.name = s

theorem ofName?_name (v : Verdict) : ofName? v.name = some v := by
  cases v <;> decide

end Verdict

inductive Reason where
  | preInstall
  | installStarted
  | installSucceeded
  | installFailed
  | preUninstall
  | uninstallStarted
  | uninstallSucceeded
  | uninstallFailed
  | preUpgrade
  | upgradeStarted
  | upgradeSucceeded
  | upgradeFailed
  | updateStarted
  | updateSucceeded
  | updateFailed
  | alreadyInstalled
  | ready
  | reconciling
  | reconcileComplete
  | failed
  deriving Repr, DecidableEq

structure ReasonError where
  name : String
  deriving Repr, DecidableEq

def ReasonError.message (e : ReasonError) : String :=
  "unknown condition reason '" ++ e.name ++ "'"

namespace Reason

def all : List Reason :=
  [preInstall, installStarted, installSucceeded, installFailed, preUninstall, uninstallStarted,
    uninstallSucceeded, uninstallFailed, preUpgrade, upgradeStarted, upgradeSucceeded,
    upgradeFailed, updateStarted, updateSucceeded, updateFailed, alreadyInstalled, ready,
    reconciling, reconcileComplete, failed]

def name : Reason → String
  | preInstall => "PreInstall"
  | installStarted => "InstallStarted"
  | installSucceeded => "InstallSucceeded"
  | installFailed => "InstallFailed"
  | preUninstall => "PreUninstall"
  | uninstallStarted => "UninstallStarted"
  | uninstallSucceeded => "UninstallSucceeded"
  | uninstallFailed => "UninstallFailed"
  | preUpgrade => "PreUpgrade"
  | upgradeStarted => "UpgradeStarted"
  | upgradeSucceeded => "UpgradeSucceeded"
  | upgradeFailed => "UpgradeFailed"
  | updateStarted => "UpdateStarted"
  | updateSucceeded => "UpdateSucceeded"
  | updateFailed => "UpdateFailed"
  | alreadyInstalled => "AlreadyInstalled"
  | ready => "Ready"
  | reconciling => "Reconciling"
  | reconcileComplete => "ReconcileComplete"
  | failed => "Failed"

def ofName (s : String) : Except ReasonError Reason :=
  match all.find? fun r => r.name = s with
  | some r => .ok r
  | none => .error ⟨s⟩

/-- Finished work is ready; failures and work under way are not. -/
def verdict : Reason → Verdict
  | installSucceeded => .yes
  | uninstallSucceeded => .yes
  | upgradeSucceeded => .yes
  | updateSucceeded => .yes
  | alreadyInstalled => .yes
  | ready => .yes
  | reconcileComplete => .yes
  | reconciling => .unknown
  | _ => .no

/-- The phase that an event puts a resource into; finished work puts it into the
phase that its kind calls success. -/
def phase (success : Phase) : Reason → Phase
  | preInstall => .preInstalling
  | installStarted => .installing
  | preUninstall => .uninstalling
  | uninstallStarted => .uninstalling
  | preUpgrade => .preUpgrading
  | upgradeStarted => .upgrading
  | updateStarted => .reconciling
  | reconciling => .reconciling
  | installSucceeded => success
  | uninstallSucceeded => success
  | upgradeSucceeded => success
  | updateSucceeded => success
  | alreadyInstalled => success
  | ready => success
  | reconcileComplete => success
  | installFailed => .failed
  | uninstallFailed => .failed
  | upgradeFailed => .failed
  | updateFailed => .failed
  | failed => .failed

theorem name_injective {r s : Reason} (h : r.name = s.name) : r = s := by
  cases r <;> cases s <;> simp_all [name]

end Reason

structure Reason.Subject where
  module : String
  namespaceName : String
  release : String
  detail : Option String

/-- The message of an event. Only failures tell their detail. -/
def Reason.message (r : Reason) (s : Subject) : String :=
  let place := "module " ++ s.module ++ " in namespace " ++ s.namespaceName
  let asRelease := place ++ " as Helm release " ++ s.release
  let withRelease := place ++ ", Helm release " ++ s.release
  let capital := "Module " ++ s.module ++ " in namespace " ++ s.namespaceName
  let detail := s.detail.getD "unknown error"
  match r with
  | preInstall => "Preparing to install " ++ asRelease
  | installStarted => "Started installing " ++ asRelease
  | installSucceeded => "Successfully installed " ++ asRelease
  | installFailed => "Failed installing " ++ asRelease ++ ": " ++ detail
  | preUninstall => "Preparing to uninstall " ++ withRelease
  | uninstallStarted => "Started uninstalling " ++ withRelease
  | uninstallSucceeded => "Successfully uninstalled " ++ withRelease
  | uninstallFailed => "Failed uninstalling " ++ withRelease ++ ": " ++ detail
  | preUpgrade => "Preparing to upgrade " ++ withRelease
  | upgradeStarted => "Started upgrading " ++ withRelease
  | upgradeSucceeded => "Successfully upgraded " ++ withRelease
  | upgradeFailed => "Failed upgrading " ++ withRelease ++ ": " ++ detail
  | updateStarted => "Started updating " ++ withRelease
  | updateSucceeded => "Successfully updated " ++ withRelease
  | updateFailed => "Failed updating " ++ withRelease ++ ": " ++ detail
  | alreadyInstalled => capital ++ " is already installed as Helm release " ++ s.release
  | ready => capital ++ ", Helm release " ++ s.release ++ " is ready"
  | reconciling => "Reconciling " ++ withRelease
  | reconcileComplete => "Reconciled " ++ withRelease
  | failed => capital ++ ", Helm release " ++ s.release ++ " failed: " ++ detail

end ReleaseOperator
