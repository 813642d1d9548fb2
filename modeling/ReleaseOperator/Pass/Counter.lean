/-!
# Counters

What is counted while the operator runs. A tally maps the name of a counter,
with its labels in alphabetical order, to a number.
-/

namespace ReleaseOperator

inductive Counter where
  | reconciliation
  | reconciliationError
  | reconciliationDuration
  | installDuration
  | requeue (reason : String)
  | transition (state work : String)
  | helmOperation (operation result : String)
  deriving Repr, DecidableEq

namespace Counter

def label (name value : String) : String :=
  name ++ "=\"" ++ value ++ "\""

def labelled (name : String) (labels : List (String × String)) : String :=
  let body := ",".intercalate (labels.map fun kv => label kv.1 kv.2)
  name ++ String.singleton (Char.ofNat 123) ++ body ++ String.singleton (Char.ofNat 125)

def key : Counter → String
  | reconciliation => "reconciliations_total"
  | reconciliationError => "reconciliation_errors_total"
  | reconciliationDuration => "reconciliation_duration_seconds_count"
  | installDuration => "install_duration_seconds_count"
  | requeue reason => labelled "requeues_total" [("reason", reason)]
  | transition state work => labelled "state_transitions_total" [("state", state), ("work", work)]
  | helmOperation operation result =>
    labelled "helm_operations_total" [("operation", operation), ("result", result)]

end Counter

abbrev Tally := List (String × Nat)

namespace Tally

def add (c : Counter) : Tally → Tally
  | [] => [(c.key, 1)]
  | (k, n) :: rest => if k = c.key then (k, n + 1) :: rest else (k, n) :: add c rest

end Tally

end ReleaseOperator
