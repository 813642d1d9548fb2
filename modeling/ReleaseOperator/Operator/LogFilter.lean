import ReleaseOperator.Operator.Config

/-!
# Log filters

A log filter says which events are logged. It is a list of rules, each with a level
and the beginning of the targets that it is about; for a target the most specific rule
counts. A rule can also name a span. As nothing here happens inside a span, such a rule
lets nothing through.
-/

namespace ReleaseOperator

/-- How much is logged: a level lets through its own events and all graver ones. -/
inductive LogLevel where
  | off
  | error
  | warn
  | info
  | debug
  | trace
  deriving Repr, DecidableEq

namespace LogLevel

def all : List LogLevel := [off, error, warn, info, debug, trace]

def rank : LogLevel → Nat
  | off => 0
  | error => 1
  | warn => 2
  | info => 3
  | debug => 4
  | trace => 5

def name : LogLevel → String
  | off => "OFF"
  | error => "ERROR"
  | warn => "WARN"
  | info => "INFO"
  | debug => "DEBUG"
  | trace => "TRACE"

def parse? (s : String) : Option LogLevel :=
  match Config.natBelow? 6 s with
  | some n => all.find? fun l => l.rank = n
  | none => all.find? fun l => l.name.toList = s.toList.map Char.toUpper

end LogLevel

/-- What a rule is about: the targets that begin in a certain way, or a span. -/
inductive LogScope where
  | everything
  | targets (start : String)
  | span
  deriving Repr, DecidableEq

structure LogRule where
  scope : LogScope
  level : LogLevel
  deriving Repr, DecidableEq

namespace LogRule

/-- Whether a rule can begin with a character. Characters beyond the basic ones count
as letters. -/
def isStart (c : Char) : Bool :=
  c.isAlphanum || c = '-' || c = ':' || c = '_' || 128 ≤ c.toNat

/-- A level behind an equals sign; without a word it is the most talkative one. -/
def levelBehind? (cs : List Char) : Option LogLevel :=
  if cs.isEmpty then some .trace else LogLevel.parse? (String.ofList cs)

/-- What is behind the fields of a span, none of which may be empty. -/
def behindFields? (cs : List Char) : Option (List Char) :=
  let field := cs.takeWhile fun c => c ≠ '\x7d'
  match cs.dropWhile fun c => c ≠ '\x7d' with
  | _ :: ']' :: rest => if field.isEmpty then none else some rest
  | _ => none

def behindSpan? (cs : List Char) : Option (List Char) :=
  match cs.dropWhile fun c => c ≠ ']' && c ≠ '\x7b' with
  | ']' :: rest => some rest
  | _ :: rest => behindFields? rest
  | [] => none

def ofSpan? (cs : List Char) : Option LogRule := do
  match ← behindSpan? cs with
  | [] => return ⟨.span, .trace⟩
  | '=' :: level => return ⟨.span, ← levelBehind? level⟩
  | _ => failure

/-- The rule without an equals sign: a level for everything, or all events of some
targets. -/
def ofWord (s : String) : LogRule :=
  match LogLevel.parse? s with
  | some l => ⟨.everything, l⟩
  | none => ⟨.targets s, .trace⟩

/-- One rule. Blanks in front are no part of a target, so they leave a rule without
targets; in front of an equals sign they are wrong. -/
def parse? (s : String) : Option LogRule :=
  let cs := Text.trimChars s.toList
  let target := cs.takeWhile fun c => c ≠ '=' && c ≠ '['
  match cs, cs.dropWhile fun c => c ≠ '=' && c ≠ '[' with
  | [], _ => none
  | '[' :: span, _ => ofSpan? span
  | c :: _, rest =>
    if isStart c then
      match rest with
      | [] => some (ofWord s)
      | '[' :: span => ofSpan? span
      | _ =>
        let level := (s.toList.dropWhile fun c => c ≠ '=').drop 1
        if s.toList.head? = some c then
          (levelBehind? level).map fun l => ⟨.targets (String.ofList target), l⟩
        else none
    else none

/-- How specific a rule is about a target, if it speaks of it. -/
def weight? (r : LogRule) (target : String) : Option Nat :=
  match r.scope with
  | .everything => some 0
  | .targets start => if Text.hasStart target start then some (start.utf8ByteSize + 1) else none
  | .span => none

end LogRule

abbrev LogFilter := List LogRule

namespace LogFilter

def pieces (s : String) : List String :=
  (Text.splitOn s ',').filter fun p => !p.isEmpty

def usual : LogFilter := [⟨.everything, .error⟩]

def ofRules (rules : List LogRule) : LogFilter :=
  if rules.isEmpty then usual else rules

/-- The filter of a text of which every piece is a rule. -/
def parse? (s : String) : Option LogFilter :=
  ((pieces s).mapM LogRule.parse?).map ofRules

/-- The filter of those pieces of a text that are rules. -/
def parseLenient (s : String) : LogFilter :=
  ofRules ((pieces s).filterMap LogRule.parse?)

/-- The level for a target: that of the most specific rule, the last of several. -/
def level (f : LogFilter) (target : String) : LogLevel :=
  let best := f.foldl (fun (best : Option (Nat × LogLevel)) r =>
    match r.weight? target, best with
    | some w, some (v, l) => if v ≤ w then some (w, r.level) else some (v, l)
    | some w, none => some (w, r.level)
    | none, _ => best) none
  (best.map Prod.snd).getD .off

def allows (f : LogFilter) (target : String) (l : LogLevel) : Bool :=
  decide (l.rank ≤ (f.level target).rank)

end LogFilter

end ReleaseOperator
