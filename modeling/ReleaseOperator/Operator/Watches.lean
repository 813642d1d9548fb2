import ReleaseOperator.Cluster.Place
import ReleaseOperator.Operator.Owners

/-!
# Watches

For each class the operator runs one controller for modules and one for actions. A
controller of modules also watches the objects that hold values for modules. Every
watch begins with a list of what is there.
-/

namespace ReleaseOperator

/-- What a watch looks at: a collection, and the label that its objects must have. -/
structure Watch where
  collection : Cluster.Collection
  label : Option String
  deriving Repr, DecidableEq

namespace Watch

def onKind (k : Kind) : Watch := ⟨.ofKind k, none⟩

def onHolders (c : Cluster.Collection) : Watch := ⟨c, some ownerLabel⟩

/-- How many objects a list brings at once. -/
def pageSize : Nat := 500

/-- A character inside a query: letters, digits and `*`, `-`, `.` and `_` stand for
themselves. -/
def queryChar (c : Char) : List Char :=
  if c.isAlphanum || c = '*' || c = '-' || c = '.' || c = '_' then [c]
  else if c = ' ' then ['+']
  else (String.ofList [c]).toUTF8.toList.flatMap fun b =>
    let digits := (Nat.toDigits 16 b.toNat).map Char.toUpper
    '%' :: (List.replicate (2 - digits.length) '0' ++ digits)

def queryText (s : String) : String :=
  String.ofList (s.toList.flatMap queryChar)

/-- The request that begins a watch on a namespace, or on all. -/
def firstRequest (w : Watch) (namespaceName : Option String) : Cluster.Request :=
  let label := match w.label with
    | some l => "&labelSelector=" ++ queryText l
    | none => ""
  ⟨.get, w.collection.path namespaceName, label ++ "&limit=" ++ toString pageSize, .nothing⟩

end Watch

def Kind.watches : Kind → List Watch
  | .module => [.onKind .module, .onHolders .configMaps, .onHolders .secrets]
  | .action => [.onKind .action]

structure Controller where
  className : String
  kind : Kind
  deriving Repr, DecidableEq

namespace Controller

def ofClasses (classes : List String) : List Controller :=
  classes.flatMap fun c => [⟨c, .module⟩, ⟨c, .action⟩]

def firstRequests (controllers : List Controller) (namespaceName : Option String) :
    List Cluster.Request :=
  controllers.flatMap fun c => c.kind.watches.map fun w => w.firstRequest namespaceName

end Controller

end ReleaseOperator
