/-!
# Base 64

Bytes written with 64 letters, four letters for three bytes. Only one spelling of
some bytes is accepted: the last four letters are filled up with `=`, and the bits
that no byte needs are zero.
-/

namespace ReleaseOperator.Text.Base64

def value? (c : Char) : Option Nat :=
  if 'A' ≤ c ∧ c ≤ 'Z' then some (c.toNat - 65)
  else if 'a' ≤ c ∧ c ≤ 'z' then some (c.toNat - 71)
  else if '0' ≤ c ∧ c ≤ '9' then some (c.toNat + 4)
  else if c = '+' then some 62
  else if c = '/' then some 63
  else none

/-- The last letters, filled up or complete. -/
def lastBytes? (a b : Nat) (c d : Char) : Option (List UInt8) :=
  match c, d with
  | '=', '=' =>
    if b % 16 = 0 then some [UInt8.ofNat (a * 4 + b / 16)] else none
  | c, '=' =>
    (value? c).bind fun c =>
      if c % 4 = 0 then
        some [UInt8.ofNat (a * 4 + b / 16), UInt8.ofNat (b % 16 * 16 + c / 4)]
      else none
  | _, _ => none

/-- The bytes that some letters stand for. -/
def decode? : List Char → Option (List UInt8)
  | [] => some []
  | a :: b :: c :: d :: rest => do
    let a ← value? a
    let b ← value? b
    match value? c, value? d with
    | some c, some d =>
      let bytes ← decode? rest
      return UInt8.ofNat (a * 4 + b / 16) :: UInt8.ofNat (b % 16 * 16 + c / 4) ::
        UInt8.ofNat (c % 4 * 64 + d) :: bytes
    | _, _ => if rest.isEmpty then lastBytes? a b c d else none
  | _ => none

end ReleaseOperator.Text.Base64
