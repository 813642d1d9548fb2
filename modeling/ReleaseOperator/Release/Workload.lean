/-!
# Workloads

The workloads of a release whose rollout is waited for.
-/

namespace ReleaseOperator

inductive WorkloadKind where
  | deployment
  | statefulSet
  | daemonSet
  deriving Repr, DecidableEq

namespace WorkloadKind

def name : WorkloadKind → String
  | deployment => "Deployment"
  | statefulSet => "StatefulSet"
  | daemonSet => "DaemonSet"

def ofName? (s : String) : Option WorkloadKind :=
  [deployment, statefulSet, daemonSet].find? fun k => k.name = s

def apiVersion : String := "apps/v1"

def ofObject? (apiVersion kind : String) : Option WorkloadKind :=
  if apiVersion = WorkloadKind.apiVersion then ofName? kind else none

theorem ofName?_name (k : WorkloadKind) : ofName? k.name = some k := by
  cases k <;> decide

end WorkloadKind

structure Workload where
  kind : WorkloadKind
  namespaceName : String
  name : String
  deriving Repr, DecidableEq

def Workload.text (w : Workload) : String :=
  w.kind.name ++ " " ++ w.namespaceName ++ "/" ++ w.name

end ReleaseOperator
