import ReleaseOperator.Json.Value

/-!
# Compact Json text

The text of a value without any space. Quotes, backslashes and control
characters are escaped, every other character stands for itself. Since objects
are ordered by key the text of equal values is equal; it is what digests are
taken of.
-/

namespace ReleaseOperator.Json

def hexDigit (n : Nat) : Char :=
  if n < 10 then Char.ofNat (48 + n) else Char.ofNat (87 + n)

/-- The written form of one character inside a text. -/
def escapeChar (c : Char) : List Char :=
  if c = '"' then ['\\', '"']
  else if c = '\\' then ['\\', '\\']
  else if c = '\n' then ['\\', 'n']
  else if c = '\r' then ['\\', 'r']
  else if c = '\t' then ['\\', 't']
  else if c.toNat = 8 then ['\\', 'b']
  else if c.toNat = 12 then ['\\', 'f']
  else if c.toNat < 32 then
    ['\\', 'u', '0', '0', hexDigit (c.toNat / 16), hexDigit (c.toNat % 16)]
  else [c]

def quote (s : String) : List Char :=
  '"' :: (s.toList.flatMap escapeChar ++ ['"'])

def wholeText (i : Int) : List Char :=
  if i < 0 then '-' :: Nat.toDigits 10 i.natAbs else Nat.toDigits 10 i.natAbs

mutual

def chars : Json → List Char
  | null => ['n', 'u', 'l', 'l']
  | bool true => ['t', 'r', 'u', 'e']
  | bool false => ['f', 'a', 'l', 's', 'e']
  | whole i => wholeText i
  | real bits => (realFormat.render bits).toList
  | text s => quote s
  | array items => '[' :: (itemChars items ++ [']'])
  | object fields => '{' :: (fieldChars fields ++ ['}'])

def itemChars : List Json → List Char
  | [] => []
  | [v] => chars v
  | v :: w :: rest => chars v ++ ',' :: itemChars (w :: rest)

def fieldChars : List (String × Json) → List Char
  | [] => []
  | [(k, v)] => quote k ++ ':' :: chars v
  | (k, v) :: f :: rest => quote k ++ ':' :: (chars v ++ ',' :: fieldChars (f :: rest))

end

/-- The compact text of a value. -/
def compact (v : Json) : String :=
  String.ofList (chars v)

theorem chars_array (items : List Json) :
    chars (array items) = '[' :: (itemChars items ++ [']']) := by
  simp [chars]

theorem chars_object (fields : List (String × Json)) :
    chars (object fields) = '{' :: (fieldChars fields ++ ['}']) := by
  simp [chars]

end ReleaseOperator.Json
