import ReleaseOperator.Helm.Shell
import ReleaseOperator.InMemory.Table

/-!
# A machine in memory

A machine whose program ends each run as it was told beforehand, one ending after
the other, and well when nothing was told. It remembers the runs, with the contents
of the files that they were given, and which temporary paths are still there.
-/

namespace ReleaseOperator.InMemory

open Helm (Ending Invocation Shell ShellCall)

/-- A run that was started, and the contents of the files behind its `-f` flags. -/
structure Started where
  invocation : Invocation
  files : List String

/-- A machine. The newest run comes first. -/
structure Machine where
  /-- Whether the program is there. -/
  hasProgram : Bool
  endings : List Ending
  made : Nat
  live : Table String String
  started : List Started
  tally : Tally

namespace Machine

def fresh (hasProgram : Bool) (endings : List Ending) : Machine :=
  ⟨hasProgram, endings, 0, [], [], []⟩

def make (content : String) (m : Machine) : Except String String × Machine :=
  let path := "/tmp/" ++ toString m.made
  (.ok path, { m with made := m.made + 1, live := m.live.put path content })

def contents (live : Table String String) : List String → List String
  | "-f" :: path :: rest => (live.get? path).getD "" :: contents live rest
  | _ :: rest => contents live rest
  | [] => []

/-- A run of the program. Nothing can be started with a NUL in an argument. -/
def run (i : Invocation) (m : Machine) : Ending × Machine :=
  if i.args.any fun a => a.toList.contains (Char.ofNat 0) then
    (.broken "nul byte found in provided data", m)
  else if m.hasProgram then
    (m.endings.headD (.exited 0 [] []),
      { m with endings := m.endings.drop 1, started := ⟨i, contents m.live i.args⟩ :: m.started })
  else (.broken "No such file or directory (os error 2)", m)

def answer : (c : ShellCall) → StateM Machine c.Answer
  | .makeFile content => modifyGet (make content)
  | .makeDirectory => modifyGet (make "")
  | .discard path => modify fun m => { m with live := m.live.erase path }
  | .run i _ => modifyGet (run i)
  | .count c => modify fun m => { m with tally := m.tally.add c }

def perform (p : Shell α) : StateM Machine α := p.run answer

end Machine

end ReleaseOperator.InMemory
