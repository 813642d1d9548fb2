/-!
# Bytes as text

Bytes are read as UTF-8 by an automaton: either it waits for a character to begin,
or it is inside of one. What is broken is given back as a gap, and a gap takes the
bytes that could still have been the start of a character, so the next character
behind it is not lost.
-/

namespace ReleaseOperator.Text.Utf8

/-- Where a reader stands: the number of bytes that a character still needs, the
range of the next of them, and the bits read so far. -/
inductive Position where
  | between
  | inside (more : Nat) (low high : Nat) (bits : Nat)
  deriving Repr, DecidableEq

/-- The position behind a first byte of several, unless no character starts so. The
ranges leave out what could be written with fewer bytes, the halves of pairs, and
what lies beyond the last character. -/
def begin? (b : Nat) : Option Position :=
  if 0xC2 ≤ b ∧ b ≤ 0xDF then some (.inside 1 0x80 0xBF (b - 0xC0))
  else if b = 0xE0 then some (.inside 2 0xA0 0xBF 0)
  else if b = 0xED then some (.inside 2 0x80 0x9F 13)
  else if 0xE1 ≤ b ∧ b ≤ 0xEF then some (.inside 2 0x80 0xBF (b - 0xE0))
  else if b = 0xF0 then some (.inside 3 0x90 0xBF 0)
  else if 0xF1 ≤ b ∧ b ≤ 0xF3 then some (.inside 3 0x80 0xBF (b - 0xF0))
  else if b = 0xF4 then some (.inside 3 0x80 0x8F 4)
  else none

/-- A byte between characters: what it completes, and the position behind it. -/
def first (b : Nat) : List (Option Char) × Position :=
  if b < 0x80 then ([some (Char.ofNat b)], .between)
  else
    match begin? b with
    | some p => ([], p)
    | none => ([none], .between)

def step (b : Nat) : Position → List (Option Char) × Position
  | .between => first b
  | .inside more low high bits =>
    if low ≤ b ∧ b ≤ high then
      let bits := bits * 64 + (b - 0x80)
      if more ≤ 1 then ([some (Char.ofNat bits)], .between)
      else ([], .inside (more - 1) 0x80 0xBF bits)
    else
      let (read, p) := first b
      (none :: read, p)

/-- The characters of some bytes, and the gaps between them. -/
def pieces : Position → List UInt8 → List (Option Char)
  | .between, [] => []
  | .inside _ _ _ _, [] => [none]
  | p, b :: rest =>
    let (read, p) := step b.toNat p
    read ++ pieces p rest

/-- The text of some bytes, unless something is broken. -/
def decode? (bytes : List UInt8) : Option String :=
  ((pieces .between bytes).mapM id).map String.ofList

/-- The text of some bytes, with a mark for each gap. -/
def decodeMarked (bytes : List UInt8) : String :=
  String.ofList ((pieces .between bytes).map fun c => c.getD (Char.ofNat 0xFFFD))

end ReleaseOperator.Text.Utf8
