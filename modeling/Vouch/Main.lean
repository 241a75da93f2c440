import Vouch.Program.Session
/-!
# The node program

Reads arguments and the configuration file, and prints what `start` says. A node that runs logs its
status every thirty seconds until standard input ends or says `stop`.
-/
namespace Vouch.Program

/-- The octets of a file, if it can be read. -/
def fileOctets (path : String) : IO (Option Bytes) := do
  try
    return some (← IO.FS.readBinFile path).toList
  catch _ => return none

/-- The path that the arguments name, if they name one. -/
def pathOf (args : List String) : String :=
  match Command.ofArguments args with
  | .ok (.start path) => path
  | _ => ""

/-- Prints the events that are let through. -/
def printEvents (r : Start) (events : List Event) : IO Unit := do
  let format := (r.config?.map fun c => c.node.logFormat).getD .plain
  for e in r.logged events do
    IO.println (e.line format)

/-- Logs the status of a node at intervals until it is told to stop. -/
partial def serve (s : Session) (input : IO.FS.Stream) : IO Unit := do
  let told ← IO.asTask do
    let mut line ← input.getLine
    while line ≠ "" && line.trimAscii.toString ≠ "stop" do
      line ← input.getLine
  let rec tick (waited : Nat) : IO Unit := do
    if ← IO.hasFinished told then return
    if waited % 30000 = 0 then printEvents (.running s) [s.status]
    IO.sleep 100
    tick (waited + 100)
  tick 0

def run (args : List String) : IO UInt32 := do
  let content ← fileOctets (pathOf args)
  let r := start args fun _ => content
  for l in r.complaints do
    IO.eprintln l
  printEvents r r.events
  match r with
  | .printed line => IO.println line
  | .running s =>
    serve s (← IO.getStdin)
    printEvents r Session.stopEvents
  | _ => pure ()
  return UInt32.ofNat r.exitStatus

end Vouch.Program

def main (args : List String) : IO UInt32 := Vouch.Program.run args
