/-!
# Versions

Semantic versions and their order. Precedence compares the three numbers, then
the pre-release identifiers, where a version without any comes last; the build
identifiers settle what is left, so the order is total and only equal versions
compare equal.
-/

namespace ReleaseOperator

/-- A semantic version. The identifiers between the dots are kept as written. -/
structure Version where
  major : Nat
  minor : Nat
  patch : Nat
  pre : List String
  build : List String
  deriving Repr, DecidableEq

namespace Version

def isNumeric (s : String) : Bool :=
  s.toList.all Char.isDigit

def compareText (a b : String) : Ordering :=
  compareOfLessAndEq a b

/-- The order of two pre-release identifiers: numeric ones first and by value,
which for digits without leading zeros is by length and then by text. -/
def comparePreIdentifier (a b : String) : Ordering :=
  match isNumeric a, isNumeric b with
  | false, true => .gt
  | true, false => .lt
  | false, false => compareText a b
  | true, true => (compare a.length b.length).then (compareText a b)

def dropZeros (s : String) : String :=
  String.ofList (s.toList.dropWhile (· = '0'))

/-- The order of two build identifiers: numeric ones first and by value, the one
with fewer leading zeros first when the values agree. -/
def compareBuildIdentifier (a b : String) : Ordering :=
  match isNumeric a, isNumeric b with
  | false, true => .gt
  | true, false => .lt
  | false, false => compareText a b
  | true, true =>
    let x := dropZeros a
    let y := dropZeros b
    ((compare x.length y.length).then (compareText x y)).then (compare a.length b.length)

/-- Lists of identifiers in lexicographic order; a shorter list comes before its
extensions. -/
def compareIdentifiers (cmp : String → String → Ordering) :
    List String → List String → Ordering
  | [], [] => .eq
  | [], _ :: _ => .lt
  | _ :: _, [] => .gt
  | a :: as, b :: bs => (cmp a b).then (compareIdentifiers cmp as bs)

/-- The order of two pre-release parts; none at all comes last. -/
def comparePre : List String → List String → Ordering
  | [], [] => .eq
  | [], _ :: _ => .gt
  | _ :: _, [] => .lt
  | as, bs => compareIdentifiers comparePreIdentifier as bs

/-- The order of two build parts; none at all counts as one empty identifier. -/
def compareBuild (as bs : List String) : Ordering :=
  let filled (xs : List String) := if xs.isEmpty then [""] else xs
  compareIdentifiers compareBuildIdentifier (filled as) (filled bs)

/-- The total order of versions. -/
def order (v w : Version) : Ordering :=
  (compare v.major w.major).then <|
    (compare v.minor w.minor).then <|
      (compare v.patch w.patch).then <|
        (comparePre v.pre w.pre).then (compareBuild v.build w.build)

def preText (v : Version) : String := ".".intercalate v.pre

def buildText (v : Version) : String := ".".intercalate v.build

def text (v : Version) : String :=
  let numbers := ".".intercalate [toString v.major, toString v.minor, toString v.patch]
  let pre := if v.pre.isEmpty then "" else "-" ++ v.preText
  let build := if v.build.isEmpty then "" else "+" ++ v.buildText
  numbers ++ pre ++ build

end Version

end ReleaseOperator
