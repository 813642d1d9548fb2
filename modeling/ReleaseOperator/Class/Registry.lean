import ReleaseOperator.Json.Value
import ReleaseOperator.Text.Quoted

/-!
# Classes of modules

A class may put values of its own under those of its modules. Classes are registered
by name; one that is not registered is a plain class without values.
-/

namespace ReleaseOperator

/-- What a class contributes. -/
structure ModuleClass where
  name : String
  baseValues : Option Json
  deriving Repr, BEq

def ModuleClass.plain (name : String) : ModuleClass := ⟨name, none⟩

def ModuleClass.standardName : String := "helm"

/-- The registered classes, one for each name. -/
structure ClassRegistry where
  classes : List ModuleClass
  deriving Repr, BEq

namespace ClassRegistry

def empty : ClassRegistry := ⟨[]⟩

/-- The class with its values put under its name, in place of an earlier one. -/
def register (r : ClassRegistry) (c : ModuleClass) : ClassRegistry :=
  ⟨c :: r.classes.filter fun d => d.name ≠ c.name⟩

def standard : ClassRegistry := empty.register (.plain ModuleClass.standardName)

def find? (r : ClassRegistry) (name : String) : Option ModuleClass :=
  r.classes.find? fun c => c.name = name

def get (r : ClassRegistry) (name : String) : ModuleClass :=
  (r.find? name).getD (.plain name)

def isRegistered (r : ClassRegistry) (name : String) : Bool :=
  (r.find? name).isSome

def names (r : ClassRegistry) : List String :=
  (r.classes.map ModuleClass.name).mergeSort fun a b => decide (a ≤ b)

def text (r : ClassRegistry) : String :=
  "ClassRegistry \x7b classes: " ++ Text.quoteList r.names ++ " \x7d"

end ClassRegistry

end ReleaseOperator
