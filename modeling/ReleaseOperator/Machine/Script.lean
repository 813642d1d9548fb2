import ReleaseOperator.Machine.Run
import ReleaseOperator.Pass.Counter

/-!
# Scripted work

A worker whose answers are laid down beforehand, step by step. Each step has a
queue of answers and takes the first one each time it is asked; a step whose
queue is used up succeeds. It is used to rehearse a run without any release.
-/

namespace ReleaseOperator

/-- The answer of a step: its outcome, and a yes or no for the two questions. -/
structure Script.Answer where
  outcome : Outcome
  yes : Bool
  deriving Repr, DecidableEq

/-- The answer of a step whose queue is used up. -/
def Script.Answer.success : Script.Answer := ⟨.done, true⟩

/-- Queues of answers by the name of their step. -/
abbrev Script := List (String × List Script.Answer)

def Script.take (step : String) : Script → Script.Answer × Script
  | [] => (.success, [])
  | (s, queue) :: rest =>
    if s = step then
      match queue with
      | [] => (.success, (s, []) :: rest)
      | a :: queue => (a, (s, queue) :: rest)
    else
      let (a, rest) := take step rest
      (a, (s, queue) :: rest)

/-- A rehearsal: what is left of the script, the steps asked so far, the current
stage and the transitions counted. -/
structure Rehearsal where
  script : Script
  calls : List String
  stage : Stage
  tally : Tally

namespace Rehearsal

def askStep (step : String) : StateM Rehearsal Script.Answer := fun r =>
  let (a, script) := r.script.take step
  (a, { r with script, calls := r.calls ++ [step] })

def enter (action : Action) (stage : Stage) : StateM Rehearsal Unit := fun r =>
  ((), { r with stage, tally := r.tally.add (.transition stage.label action.workName) })

def outcome (step : String) : StateM Rehearsal Outcome :=
  Script.Answer.outcome <$> askStep step

def answer (step : String) : StateM Rehearsal (Bool × Outcome) :=
  (fun a => (a.yes, a.outcome)) <$> askStep step

def worker (action : Action) : Worker (StateM Rehearsal) where
  action := action
  isNeeded := answer "is_work_needed"
  announcePreWork := outcome "pre_work_update_status"
  preWork := outcome "pre_work"
  announceWork := outcome "do_work_update_status"
  work := outcome "do_work"
  isDone := answer "is_work_done"
  announcePostWork := outcome "post_work_update_status"
  postWork := outcome "post_work"
  complete := outcome "work_completed_update_status"

/-- The surroundings of a rehearsal: a short delay is one second. -/
def surroundings : Surroundings (StateM Rehearsal) where
  enter := enter
  shortDelay := pure (.after (Duration.ofMillis Outcome.shortWindow.1))

/-- One run of a worker from the current stage on, with the steps asked in it. -/
def run (w : Worker (StateM Rehearsal)) (r : Rehearsal) : (Outcome × List String) × Rehearsal :=
  let (o, r') := w.run surroundings r.stage { r with calls := [] }
  ((o, r'.calls), r')

def runs (w : Worker (StateM Rehearsal)) :
    Nat → Rehearsal → List (Outcome × List String × Stage) × Rehearsal
  | 0, r => ([], r)
  | n + 1, r =>
    let ((o, calls), r) := run w r
    let (rest, r') := runs w n r
    ((o, calls, r.stage) :: rest, r')

end Rehearsal

end ReleaseOperator
