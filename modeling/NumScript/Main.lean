import NumScript.Command.Line

set_option autoImplicit false

/-! # The program

Reads the script a command names, and prints what the command gives. A script is run with more and
more steps until it ends. -/

open NumScript.Command

/-- The bytes of all that is left of a stream. -/
partial def readStream (stream : IO.FS.Stream) (bytes : ByteArray) : IO ByteArray := do
  let more ← stream.read 65536
  if more.isEmpty then return bytes else readStream stream (bytes ++ more)

def readScript (path : String) : IO (Option ByteArray) := do
  if path = "-" then
    return some (← readStream (← IO.getStdin) ByteArray.empty)
  else
    try return some (← IO.FS.readBinFile path) catch _ => return none

/-- What a command prints, however many steps it takes. -/
partial def outputOf (command : Invocation) (bytes : Option ByteArray) (steps : Nat) : IO Output :=
  match command.output? steps bytes with
  | some output => return output
  | none => outputOf command bytes (steps * steps)

def main (args : List String) : IO UInt32 := do
  let output ← match Invocation.ofArguments args with
    | .error output => pure output
    | .ok command =>
      let bytes ← match command.path? with
        | some path => readScript path
        | none => pure none
      outputOf command bytes 1000000
  (← IO.getStdout).putStr output.stdout
  (← IO.getStderr).putStr output.stderr
  return UInt32.ofNat output.status
