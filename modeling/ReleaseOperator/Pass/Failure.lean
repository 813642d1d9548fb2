import ReleaseOperator.Version.Parse

/-!
# Failures

What can go wrong while a resource is looked after, by its cause, and the text
that tells it. A failure may have causes of its own; its full text is the chain
of them, outermost first.
-/

namespace ReleaseOperator

inductive ClusterError where
  | notFound (object : String)
  | conflict (object : String)
  | api (detail : String)
  | serialization (detail : String)
  deriving Repr, DecidableEq

namespace ClusterError

def message : ClusterError → String
  | notFound o => o ++ " not found"
  | conflict o => "Conflict writing " ++ o
  | api d => "Kubernetes API error: " ++ d
  | serialization d => "Serialization error: " ++ d

def isConflict : ClusterError → Bool
  | conflict _ => true
  | _ => false

def isNotFound : ClusterError → Bool
  | notFound _ => true
  | _ => false

end ClusterError

/-- The time that something took or may take, in nanoseconds. -/
abbrev Duration := Nat

inductive HelmError where
  | releaseNotFound (name namespaceName : String)
  | commandFailed (command stderr : String)
  | timedOut (command : String) (after : Duration)
  | io (detail : String)
  | parse (detail : String)
  deriving Repr, DecidableEq

def HelmError.message : HelmError → String
  | releaseNotFound n ns => "Helm release " ++ ns ++ "/" ++ n ++ " not found"
  | commandFailed c e => "helm " ++ c ++ " failed: " ++ e
  | timedOut c after =>
    "helm " ++ c ++ " did not finish within " ++ toString (after / 1000000000) ++ "s"
  | io d => "Failed to run helm: " ++ d
  | parse d => "Failed to parse helm output: " ++ d

inductive SourceError where
  | missing (kind namespaceName name key : String)
  | invalid (origin reason : String)
  | cluster (e : ClusterError)
  deriving Repr, DecidableEq

def SourceError.message : SourceError → String
  | missing k ns n key => k ++ " " ++ ns ++ "/" ++ n ++ " has no key " ++ key
  | invalid o r => "Invalid values in " ++ o ++ ": " ++ r
  | cluster e => e.message

inductive Failure where
  | cluster (e : ClusterError)
  | helm (e : HelmError)
  | source (e : SourceError)
  /-- The desired version is none. -/
  | version (desired : String) (e : VersionError)
  /-- The installed and the desired version cannot be compared. -/
  | versions (installed desired : String) (e : VersionError)
  /-- A failure told by a class in its own words, outermost first. -/
  | told (top : String) (causes : List String)
  deriving Repr, DecidableEq

namespace Failure

/-- The chain of texts, outermost first. What kept Helm from running is told with
the failure and as its cause. -/
def chain : Failure → List String
  | cluster e => [e.message]
  | helm e =>
    match e with
    | .io d => [e.message, d]
    | e => [e.message]
  | source e => [e.message]
  | version d e => ["invalid version '" ++ d ++ "': " ++ e.message]
  | versions i d e =>
    ["invalid version (installed '" ++ i ++ "', desired '" ++ d ++ "'): " ++ e.message]
  | told top causes => top :: causes

def text (f : Failure) : String := ": ".intercalate f.chain

def top (f : Failure) : String := f.chain.headD ""

end Failure

end ReleaseOperator
