import ReleaseOperator.Pass.Failure

/-!
# Outcomes

A step ends in an outcome: go on, or come back after a delay, perhaps because of
a failure. What the caller of a pass is told (wait for a change, or come back)
is worked out from the outcome.
-/

namespace ReleaseOperator

namespace Duration

def ofMillis (n : Nat) : Duration := n * 1000000

def ofSecs (n : Nat) : Duration := n * 1000000000

def fractionText (width n : Nat) : List Char :=
  let ds := Nat.toDigits 10 n
  let all := List.replicate (width - ds.length) '0' ++ ds
  (all.reverse.dropWhile (· = '0')).reverse

def withUnit (whole fraction width : Nat) (unit : String) : String :=
  let tail := if fraction = 0 then [] else '.' :: fractionText width fraction
  toString whole ++ String.ofList tail ++ unit

/-- The text of a duration in the largest unit of which it holds one. -/
def text (d : Duration) : String :=
  if 1000000000 ≤ d then withUnit (d / 1000000000) (d % 1000000000) 9 "s"
  else if 1000000 ≤ d then withUnit (d / 1000000) (d % 1000000) 6 "ms"
  else if 1000 ≤ d then withUnit (d / 1000) (d % 1000) 3 "µs"
  else withUnit d 0 0 "ns"

end Duration

/-- How a step ended. -/
structure Outcome where
  requeue : Bool
  delay : Duration
  failure : Option Failure
  deriving Repr, DecidableEq

namespace Outcome

def done : Outcome := ⟨false, 0, none⟩

def after (d : Duration) : Outcome := ⟨true, d, none⟩

def failed (d : Duration) (f : Failure) : Outcome := ⟨true, d, some f⟩

def maxWord : Nat := Nat.pow 2 64 - 1

/-- The bounds, in milliseconds, between which a delay is drawn: both multiples of
the unit, cut to whole milliseconds and to 64 bits, the smaller one first. -/
def window (min max : Nat) (unit : Duration) : Nat × Nat :=
  let low := Nat.min min max
  let high := Nat.max min max
  let ms := Nat.min (unit / 1000000) maxWord
  (Nat.min (low * ms) maxWord, Nat.min (high * ms) maxWord)

/-- The bounds of a short delay: one and two seconds. -/
def shortWindow : Nat × Nat := window 1 2 (Duration.ofSecs 1)

def text (o : Outcome) : String :=
  match o.failure, o.requeue with
  | some f, _ => "requeue after " ++ Duration.text o.delay ++ ": " ++ f.text
  | none, true => "requeue after " ++ Duration.text o.delay
  | none, false => "done"

theorem window_le (min max : Nat) (unit : Duration) :
    (window min max unit).1 ≤ (window min max unit).2 := by
  have h : Nat.min min max ≤ Nat.max min max :=
    Nat.le_trans (Nat.min_le_left _ _) (Nat.le_max_left _ _)
  have h' := Nat.mul_le_mul_right (Nat.min (unit / 1000000) maxWord) h
  simp only [window]
  exact Nat.le_min.2 ⟨Nat.le_trans (Nat.min_le_left _ _) h', Nat.min_le_right _ _⟩

theorem shortWindow_eq : shortWindow = (1000, 2000) := by decide

end Outcome

inductive PassError where
  /-- A step failed and is to be tried again. -/
  | requeue (delay : Duration) (message : String)
  /-- The resource can never be looked after here as it stands. -/
  | invariant (detail : String)
  deriving Repr, DecidableEq

namespace PassError

def message : PassError → String
  | requeue _ m => m
  | invariant d => "invariant violated: " ++ d

def delay? : PassError → Option Duration
  | requeue d _ => some d
  | invariant _ => none

def defaultDelay : Duration := Duration.ofSecs 30

/-- How long to wait before the next try; an error without a delay of its own
waits for the default time. -/
def retryDelay? (e : PassError) : Option Duration :=
  e.delay?.map fun d => if d = 0 then defaultDelay else d

end PassError

inductive Directive where
  | awaitChange
  | requeue (delay : Duration)
  deriving Repr, DecidableEq

/-- The directive of an outcome. An outcome with a failure is an error, and one
without a delay waits for a change. -/
def Outcome.directive (o : Outcome) : Except PassError Directive :=
  match o.failure with
  | some f => .error (.requeue o.delay f.text)
  | none => .ok (if o.delay = 0 then .awaitChange else .requeue o.delay)

def PassError.directive (e : PassError) : Directive :=
  match e.retryDelay? with
  | some d => .requeue d
  | none => .awaitChange

end ReleaseOperator
