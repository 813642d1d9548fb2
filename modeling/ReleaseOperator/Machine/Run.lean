import ReleaseOperator.Machine.Action
import ReleaseOperator.Machine.Stage
import ReleaseOperator.Pass.Outcome

/-!
# Running a piece of work

A worker says what is done at each stage. The run walks along the stages still
to come. A stage that asks to come back stops the run and stays the current one,
so the next run takes the work up there. Work that is not needed goes straight
to the end, and a wait that is not over yet asks to come back shortly.
-/

namespace ReleaseOperator

/-- What is done at the stages of a piece of work. -/
structure Worker (m : Type → Type) where
  action : Action
  isNeeded : m (Bool × Outcome)
  announcePreWork : m Outcome
  preWork : m Outcome
  announceWork : m Outcome
  work : m Outcome
  isDone : m (Bool × Outcome)
  announcePostWork : m Outcome
  postWork : m Outcome
  complete : m Outcome

namespace Worker

def idle (m : Type → Type) [Monad m] (action : Action) : Worker m where
  action := action
  isNeeded := pure (true, .done)
  announcePreWork := pure .done
  preWork := pure .done
  announceWork := pure .done
  work := pure .done
  isDone := pure (true, .done)
  announcePostWork := pure .done
  postWork := pure .done
  complete := pure .done

end Worker

/-- What a run needs from its surroundings: to record that a stage is entered, and
to draw a short delay. -/
structure Surroundings (m : Type → Type) where
  enter : Action → Stage → m Unit
  shortDelay : m Outcome

inductive Stage.Result where
  /-- Go on with the next stage. -/
  | advance
  /-- Nothing is left to do. -/
  | skip
  /-- Stop here with this outcome. -/
  | stop (o : Outcome)
  deriving Repr, DecidableEq

namespace Stage.Result

/-- Stop when the outcome asks to come back. -/
def ofOutcome (o : Outcome) : Stage.Result :=
  if o.requeue then .stop o else .advance

end Stage.Result

namespace Worker

def stage [Monad m] (w : Worker m) (s : Surroundings m) : Stage → m Stage.Result
  | .start => pure .advance
  | .checkNeeded => do
    let (needed, o) ← w.isNeeded
    return if o.requeue then .stop o else if needed then .advance else .skip
  | .awaitWork => do
    let (done, o) ← w.isDone
    if o.requeue then return .stop o
    else if done then return .advance
    else return .stop (← s.shortDelay)
  | .announcePreWork => .ofOutcome <$> w.announcePreWork
  | .preWork => .ofOutcome <$> w.preWork
  | .announceWork => .ofOutcome <$> w.announceWork
  | .work => .ofOutcome <$> w.work
  | .announcePostWork => .ofOutcome <$> w.announcePostWork
  | .postWork => .ofOutcome <$> w.postWork
  | .complete => .ofOutcome <$> w.complete
  | .finish => pure .skip

def runAlong [Monad m] (w : Worker m) (s : Surroundings m) : List Stage → m Outcome
  | [] => pure .done
  | st :: rest => do
    match ← w.stage s st with
    | .stop o => return o
    | .skip =>
      s.enter w.action .finish
      return .done
    | .advance =>
      s.enter w.action (rest.headD .finish)
      runAlong w s rest

def run [Monad m] (w : Worker m) (s : Surroundings m) (current : Stage) : m Outcome :=
  w.runAlong s current.upcoming

end Worker

end ReleaseOperator
