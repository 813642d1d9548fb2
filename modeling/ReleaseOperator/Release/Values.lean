import ReleaseOperator.Digest.Md5
import ReleaseOperator.Json.Compact

/-!
# Merging values

Values come in documents, and later documents win: two maps are merged key by
key, anything else is replaced by the later value. Whether two merges differ is
decided by their digests, which are taken of the compact text.
-/

namespace ReleaseOperator.Values

open Json

mutual

/-- A value laid over another: maps are merged, anything else is replaced. -/
def layOver : Json → Json → Json
  | object upper, object base => object (layFields upper base)
  | upper, _ => upper

def layFields : List (String × Json) → List (String × Json) → List (String × Json)
  | [], base => base
  | (key, v) :: rest, base =>
    let merged :=
      match lookup key base with
      | some w => layOver v w
      | none => v
    layFields rest (put key merged base)

end

def mergeInto (base overlay : Json) : Json :=
  layOver overlay base

/-- The merge of some documents from left to right, null documents left out. -/
def mergeAll (documents : List Json) : Json :=
  (documents.filter fun d => !d.isNull).foldl mergeInto (object [])

def digest (v : Json) : String :=
  Md5.digest v.compact

end ReleaseOperator.Values
