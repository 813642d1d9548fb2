/-!
# Stages

A piece of work goes through a fixed sequence of stages. What is still to come
of it is a list, so that running the work is a walk along that list.
-/

namespace ReleaseOperator

/-- The stages of a piece of work, in order. -/
inductive Stage where
  | start
  | checkNeeded
  | announcePreWork
  | preWork
  | announceWork
  | work
  | awaitWork
  | announcePostWork
  | postWork
  | complete
  | finish
  deriving Repr, DecidableEq

namespace Stage

def all : List Stage :=
  [start, checkNeeded, announcePreWork, preWork, announceWork, work, awaitWork, announcePostWork,
    postWork, complete, finish]

def label : Stage → String
  | start => "init"
  | checkNeeded => "check-work-needed"
  | announcePreWork => "pre-work-update-status"
  | preWork => "pre-work"
  | announceWork => "work-update-status"
  | work => "work"
  | awaitWork => "wait-work-done"
  | announcePostWork => "post-work-update-status"
  | postWork => "post-work"
  | complete => "complete-update-status"
  | finish => "end"

def ofLabel? (s : String) : Option Stage :=
  all.find? fun st => st.label = s

def next : Stage → Stage
  | start => checkNeeded
  | checkNeeded => announcePreWork
  | announcePreWork => preWork
  | preWork => announceWork
  | announceWork => work
  | work => awaitWork
  | awaitWork => announcePostWork
  | announcePostWork => postWork
  | postWork => complete
  | complete => finish
  | finish => finish

def rank : Stage → Nat
  | start => 0
  | checkNeeded => 1
  | announcePreWork => 2
  | preWork => 3
  | announceWork => 4
  | work => 5
  | awaitWork => 6
  | announcePostWork => 7
  | postWork => 8
  | complete => 9
  | finish => 10

/-- The stages still to be done from a stage on. -/
def upcoming (s : Stage) : List Stage :=
  (all.drop s.rank).filter fun t => t ≠ finish

def path (s : Stage) : List String :=
  (all.drop s.rank).map label

theorem label_injective {s t : Stage} (h : s.label = t.label) : s = t := by
  cases s <;> cases t <;> simp_all [label]

theorem ofLabel?_label (s : Stage) : ofLabel? s.label = some s := by
  cases s <;> decide

theorem rank_next {s : Stage} (h : s ≠ finish) : s.next.rank = s.rank + 1 := by
  cases s <;> first | rfl | exact absurd rfl h

theorem upcoming_eq_cons {s : Stage} (h : s ≠ finish) : s.upcoming = s :: s.next.upcoming := by
  cases s <;> first | rfl | exact absurd rfl h

end Stage

end ReleaseOperator
