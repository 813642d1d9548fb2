import ReleaseOperator.Cluster.Typed
import ReleaseOperator.Text.Base64
import ReleaseOperator.Text.Utf8

/-!
# Config maps and secrets

Objects that hold values under keys. A secret holds bytes, written in base 64, and
may hold plain texts beside them; the bytes come first.
-/

namespace ReleaseOperator.Cluster

open Json

/-- Bytes in base 64; the null value stands for none. -/
def bytes? : Json → Option (List UInt8)
  | null => some []
  | text s => Text.Base64.decode? s.toList
  | _ => none

abbrev ConfigMap := List (String × String)

def ConfigMap.ofJson? (v : Json) : Option ConfigMap := do
  let (f, _) ← Typed.object? "v1" "ConfigMap" v
  fitting (Typed.table? bytes?) f ["binaryData"]
  fitting bool? f ["immutable"]
  let data ← optional texts? (f "data")
  return data.getD []

structure Secret where
  data : List (String × List UInt8)
  texts : List (String × String)
  deriving Repr, DecidableEq

namespace Secret

def ofJson? (v : Json) : Option Secret := do
  let (f, _) ← Typed.object? "v1" "Secret" v
  fitting text? f ["type"]
  fitting bool? f ["immutable"]
  let data ← optional (Typed.table? bytes?) (f "data")
  let texts ← optional texts? (f "stringData")
  return ⟨data.getD [], texts.getD []⟩

/-- The value under a key, if there is one; bytes must be a text. -/
def value? (s : Secret) (key : String) : Except String (Option String) :=
  match s.data.lookup key with
  | none => .ok (s.texts.lookup key)
  | some bytes =>
    match Text.Utf8.decode? bytes with
    | some t => .ok (some t)
    | none => .error ("key " ++ key ++ " is not UTF-8")

end Secret

end ReleaseOperator.Cluster
