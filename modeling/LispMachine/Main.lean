import LispMachine.CommandLine

set_option autoImplicit false

namespace LispMachine.CommandLine

-- More steps than a machine can take in practice.
def fuel : Nat := 1 <<< 62

-- The cause of a failed call to the system.
def fileError : IO.Error → FileError
  | .noFileOrDirectory _ _ _ => .notFound
  | .inappropriateType _ code _ => if code = 21 then .isADirectory else .notADirectory
  | .invalidArgument _ code text =>
      if code = 36 || code = -36 then .nameTooLong else .other text
  | error => .other error.toString

def readFile (path : String) : IO (Except FileError ByteArray) := do
  match ← (IO.FS.readBinFile path).toBaseIO with
  | .ok bytes => return .ok bytes
  | .error error => return .error (fileError error)

def writeFile (path : String) (bytes : ByteArray) : IO (Except FileError Unit) := do
  match ← (IO.FS.writeBinFile path bytes).toBaseIO with
  | .ok () => return .ok ()
  | .error error => return .error (fileError error)

partial def nextLine (input : IO.FS.Stream) (reversed : List UInt8) : IO (Option (List UInt8)) := do
  match (← input.read 1).data.toList with
  | [] => return if reversed.isEmpty then none else some reversed.reverse
  | byte :: _ =>
      if byte ≠ 10 then nextLine input (byte :: reversed)
      else
        match reversed with
        | 13 :: line => return some line.reverse
        | line => return some line.reverse

def finish (outcome : Outcome) : IO UInt32 := do
  IO.print outcome.stdout
  IO.eprint outcome.stderr
  return UInt32.ofNat outcome.exit

partial def dialogue (input : IO.FS.Stream) (d : Dialogue) : IO UInt32 := do
  match ← nextLine input [] with
  | none => finish ⟨0, "\n" ++ Dialogue.farewell, ""⟩
  | some line =>
      match d.feedBytes fuel line with
      | .error failure => finish (failed "" failure)
      | .ok none => return 1
      | .ok (some reply) =>
          IO.print reply.stdout
          IO.eprint reply.stderr
          (← IO.getStdout).flush
          match reply.next with
          | some d => dialogue input d
          | none => return 0

def perform (o : Options) : IO UInt32 := do
  match o.command with
  | some (.run path) =>
      match runFile o fuel path (← readFile path) with
      | some outcome => finish outcome
      | none => return 1
  | some (.compile path output) =>
      match (toolchain o).compileFile path output (← readFile path) with
      | (printed, .error failure) => finish (compiled printed (.error failure))
      | (printed, .ok (target, bytes)) =>
          let written ← writeFile target bytes
          finish (compiled printed ((written.mapError Failure.file).map fun () => target))
  | none =>
      if o.repl then
        IO.print Dialogue.banner
        dialogue (← IO.getStdin) (.new (toolchain o))
      else finish ⟨0, usage, ""⟩

end LispMachine.CommandLine

def main (arguments : List String) : IO UInt32 := do
  match LispMachine.CommandLine.Options.ofArguments arguments with
  | .ok o => LispMachine.CommandLine.perform o
  | .error refusal => LispMachine.CommandLine.finish (LispMachine.CommandLine.refused refusal)
