import ReleaseOperator.Pass.Counter
import ReleaseOperator.Pass.Program
import ReleaseOperator.Pass.Failure

/-!
# The shell

What the Helm client asks of the machine it runs on: temporary files and
directories, and the runs of a program. The machine chooses the paths, and says how
each run ended.
-/

namespace ReleaseOperator.Helm

inductive Ending where
  | exited (code : Nat) (stdout stderr : List UInt8)
  /-- It was stopped at its deadline. -/
  | late
  /-- It could not be started or read. -/
  | broken (detail : String)
  deriving Repr, DecidableEq

/-- A run of the program: its arguments, and what it can read, if anything. -/
structure Invocation where
  args : List String
  stdin : Option String
  deriving Repr, DecidableEq

inductive ShellCall where
  /-- A new temporary file with a content. -/
  | makeFile (content : String)
  /-- A new temporary directory. -/
  | makeDirectory
  /-- A temporary file or directory is no longer needed. -/
  | discard (path : String)
  /-- The program is run until a deadline. -/
  | run (i : Invocation) (deadline : Duration)
  | count (c : Counter)
  deriving Repr, DecidableEq

/-- What the machine answers: the path of what was made or why it was not, how a run
ended, or nothing. -/
abbrev ShellCall.Answer : ShellCall → Type
  | makeFile _ => Except String String
  | makeDirectory => Except String String
  | discard _ => Unit
  | run _ _ => Ending
  | count _ => Unit

abbrev Shell := Program ShellCall ShellCall.Answer

abbrev Errand := ExceptT HelmError Shell

namespace Errand

def ask (c : ShellCall) : Errand c.Answer :=
  ExceptT.lift (Program.call c)

def count (c : Counter) : Errand Unit :=
  ask (.count c)

def made (answer : Except String String) : Errand String :=
  match answer with
  | .ok path => pure path
  | .error detail => throw (.io detail)

/-- The use of a path, which is given back afterwards whatever comes of the use. -/
def holding (path : String) (use : Errand α) : Errand α :=
  ExceptT.mk do
    let r ← use.run
    Program.call (ShellCall.discard path)
    return r

def withFile (content : String) (use : String → Errand α) : Errand α := do
  let path ← made (← ask (.makeFile content))
  holding path (use path)

def withDirectory (use : String → Errand α) : Errand α := do
  let path ← made (← ask .makeDirectory)
  holding path (use path)

def withFiles : List String → (List String → Errand α) → Errand α
  | [], use => use []
  | content :: rest, use =>
    withFile content fun path => withFiles rest fun paths => use (path :: paths)

end Errand

end ReleaseOperator.Helm
