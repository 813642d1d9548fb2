/-!
# Searching in a text

Splitting, containment and starts of texts, on lists of characters. They are
plain structural recursions, so that facts about them need no library of string
positions. Texts that users write (versions, namespaces, environment variables)
are trimmed first: the blanks at both ends do not count.
-/

namespace ReleaseOperator.Text

/-- What is left of a list behind a given start. -/
def dropStart? [BEq α] : List α → List α → Option (List α)
  | [], rest => some rest
  | _ :: _, [] => none
  | p :: ps, c :: cs => if p == c then dropStart? ps cs else none

def startsWith [BEq α] (start cs : List α) : Bool :=
  (dropStart? start cs).isSome

def containsInfix [BEq α] (part : List α) : List α → Bool
  | [] => part.isEmpty
  | c :: cs => startsWith part (c :: cs) || containsInfix part cs

def contains (s part : String) : Bool :=
  containsInfix part.toList s.toList

def hasStart (s start : String) : Bool :=
  startsWith start.toList s.toList

def afterStart? (s start : String) : Option String :=
  (dropStart? start.toList s.toList).map String.ofList

/-- The pieces of a list between the occurrences of a separator; never empty. -/
def splitChars (sep : Char) : List Char → List (List Char)
  | [] => [[]]
  | c :: cs =>
    if c == sep then [] :: splitChars sep cs
    else
      match splitChars sep cs with
      | [] => [[c]]
      | piece :: pieces => (c :: piece) :: pieces

def splitOn (s : String) (sep : Char) : List String :=
  (splitChars sep s.toList).map String.ofList

theorem dropStart?_eq_some_iff [BEq α] [LawfulBEq α] {start cs rest : List α} :
    dropStart? start cs = some rest ↔ cs = start ++ rest := by
  induction start generalizing cs with
  | nil => simp [dropStart?, eq_comm]
  | cons p ps ih =>
    cases cs with
    | nil => simp [dropStart?]
    | cons c cs =>
      by_cases h : p = c
      · subst h; simp [dropStart?, ih]
      · have h' : ¬ c = p := fun e => h e.symm
        simp [dropStart?, h, h']

/-! ### Blank characters -/

/-- The `White_Space` property of Unicode. -/
def isBlank (c : Char) : Bool :=
  let n := c.toNat
  (9 ≤ n && n ≤ 13) || n == 32 || n == 0x85 || n == 0xA0 || n == 0x1680 ||
    (0x2000 ≤ n && n ≤ 0x200A) || n == 0x2028 || n == 0x2029 || n == 0x202F ||
    n == 0x205F || n == 0x3000

def trimChars (cs : List Char) : List Char :=
  ((cs.dropWhile isBlank).reverse.dropWhile isBlank).reverse

def trim (s : String) : String :=
  String.ofList (trimChars s.toList)

def isBlankText (s : String) : Bool :=
  s.toList.all isBlank

end ReleaseOperator.Text
