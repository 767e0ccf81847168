import NormalOrder.Program

namespace NormalOrder.Console

/-- Reads the file that the arguments name, if they name one. -/
def openArgument (args : List String) : IO Opened := do
  match CommandLine.parse args with
  | .ok (.run { file := some path, .. }) =>
    try return .bytes (← IO.FS.readBinFile path).toList catch _ => return .refused
  | _ => return .refused

/-- The next line of the standard input, without its line feed. -/
def readLine : IO (Option String) := do
  let line ← (← IO.getStdin).getLine
  if line.isEmpty then return none
  return some (String.ofList (line.toList.filter (· ≠ '\n')))

/-- Prints at once. -/
def printNow (coloured : Bool) (s : Text.Styled) : IO Unit := do
  let out ← IO.getStdout
  out.putStr (s.render coloured)
  out.flush

/-- Runs the machine until it is finished. -/
partial def drive (coloured : Bool) (a : Activity) : IO (Except Fault Unit) := do
  match a with
  | .finished result => return result
  | a =>
    let line ← match a with
      | .prompting _ => readLine
      | _ => pure none
    let (printed, next) := a.advance line
    printNow coloured printed
    drive coloured next

/-- The exit code that a result stands for. -/
def exitCode : Except Fault Unit → IO UInt32
  | .ok () | .error (.exit .none) => return 0
  | .error (.exit (.code n)) => return n.toNat.toUInt32
  | .error (.exit (.message s)) => do
    IO.eprintln s
    return 1
  | .error _ => return 1

/-- Runs the program with the given arguments. -/
def run (args : List String) : IO UInt32 := do
  let file ← openArgument args
  let coloured ← (← IO.getStdout).isTty
  let started := Program.start (fun _ => file) args
  IO.eprint started.complaint
  printNow coloured started.printed
  exitCode (← drive coloured started.activity)

end NormalOrder.Console

def main (args : List String) : IO UInt32 := NormalOrder.Console.run args
