/-!
# Instants

Points in time to the second, in the proleptic Gregorian calendar, written in
universal time. Texts with an offset are moved to it.
-/

namespace ReleaseOperator

/-- Seconds since the first of January 1970. -/
structure Instant where
  seconds : Int
  deriving Repr, DecidableEq

namespace Instant

def daysFromDate (year : Int) (month day : Nat) : Int :=
  let y := if month ≤ 2 then year - 1 else year
  let era := y.fdiv 400
  let yoe := y - era * 400
  let shifted : Int := ((month + 9) % 12 : Nat)
  let doy := (153 * shifted + 2) / 5 + (day : Int) - 1
  let doe := yoe * 365 + yoe / 4 - yoe / 100 + doy
  era * 146097 + doe - 719468

def dateOfDays (days : Int) : Int × Nat × Nat :=
  let z := days + 719468
  let era := z.fdiv 146097
  let doe := z - era * 146097
  let yoe := (doe - doe / 1460 + doe / 36524 - doe / 146096) / 365
  let doy := doe - (365 * yoe + yoe / 4 - yoe / 100)
  let mp := (5 * doy + 2) / 153
  let day := doy - (153 * mp + 2) / 5 + 1
  let month := if mp < 10 then mp + 3 else mp - 9
  (yoe + era * 400 + (if month ≤ 2 then 1 else 0), month.toNat, day.toNat)

def isLeap (year : Int) : Bool :=
  (year % 4 == 0 && year % 100 != 0) || year % 400 == 0

def daysInMonth (year : Int) (month : Nat) : Nat :=
  if month = 2 then (if isLeap year then 29 else 28)
  else if month = 4 ∨ month = 6 ∨ month = 9 ∨ month = 11 then 30
  else 31

def padded (width n : Nat) : List Char :=
  let ds := Nat.toDigits 10 n
  List.replicate (width - ds.length) '0' ++ ds

def text (t : Instant) : String :=
  let days := t.seconds.fdiv 86400
  let rest := (t.seconds - days * 86400).toNat
  let (year, month, day) := dateOfDays days
  let sign := if year < 0 then ['-'] else []
  String.ofList (sign ++ padded 4 year.natAbs ++ '-' :: padded 2 month ++ '-' :: padded 2 day ++
    'T' :: padded 2 (rest / 3600) ++ ':' :: padded 2 (rest / 60 % 60) ++
    ':' :: padded 2 (rest % 60) ++ ['Z'])

def takeNumber (width : Nat) (cs : List Char) : Option (Nat × List Char) :=
  let ds := cs.take width
  if ds.length = width ∧ ds.all Char.isDigit then
    some (ds.foldl (fun acc c => acc * 10 + (c.toNat - 48)) 0, cs.drop width)
  else none

def takeChar (c : Char) : List Char → Option (List Char)
  | [] => none
  | d :: rest => if c = d then some rest else none

def skipFraction : List Char → Option (List Char)
  | '.' :: rest =>
    if rest.head?.any Char.isDigit then some (rest.dropWhile Char.isDigit) else none
  | rest => some rest

/-- The offset from universal time in seconds. -/
def takeOffset : List Char → Option Int
  | ['Z'] => some 0
  | ['z'] => some 0
  | sign :: rest =>
    if sign = '+' ∨ sign = '-' then do
      let (hours, rest) ← takeNumber 2 rest
      let (minutes, rest) ← takeNumber 2 ((takeChar ':' rest).getD rest)
      if rest.isEmpty ∧ minutes < 60 ∧ hours < 24 then
        let s : Int := (hours * 3600 + minutes * 60 : Nat)
        return if sign = '-' then -s else s
      else none
    else none
  | [] => none

/-- The instant of a text `YYYY-MM-DDTHH:MM:SS` with an optional fraction and an
offset. -/
def parse? (s : String) : Option Instant := do
  let (year, cs) ← takeNumber 4 s.toList
  let cs ← takeChar '-' cs
  let (month, cs) ← takeNumber 2 cs
  let cs ← takeChar '-' cs
  let (day, cs) ← takeNumber 2 cs
  let cs ←
    match cs with
    | c :: rest => if c = 'T' ∨ c = 't' ∨ c = ' ' then some rest else none
    | [] => none
  let (hour, cs) ← takeNumber 2 cs
  let cs ← takeChar ':' cs
  let (minute, cs) ← takeNumber 2 cs
  let cs ← takeChar ':' cs
  let (second, cs) ← takeNumber 2 cs
  let cs ← skipFraction cs
  let offset ← takeOffset cs
  if month < 1 ∨ 12 < month ∨ day < 1 ∨ daysInMonth year month < day ∨ 23 < hour ∨ 59 < minute ∨
      60 < second then none
  else
    let days := daysFromDate year month day
    return ⟨days * 86400 + (hour * 3600 + minute * 60 + second : Nat) - offset⟩

/-- Whether a text is an instant to the second in universal time, as the clock
gives it. -/
def isStamp (s : String) : Bool :=
  match parse? s with
  | some t => t.text == s
  | none => false

end Instant

end ReleaseOperator
