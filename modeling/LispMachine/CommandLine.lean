import LispMachine.CommandLine.Arguments
import LispMachine.Session

set_option autoImplicit false

namespace LispMachine.CommandLine

structure Outcome where
  exit : Nat
  stdout : String
  stderr : String

def usage : String :=
  s!"Haruko v{Dialogue.version}\n\n" ++
    "Usage:\n" ++
    "  haruko run <FILE>                 Compile and run a file\n" ++
    "  haruko compile <FILE> [-o OUT]    Write the compiled artifact\n" ++
    "  haruko --repl                     Start interactive REPL\n\n" ++
    "Run 'haruko --help' for more options.\n"

def failed (printed : String) : Failure → Outcome
  | .file error => ⟨2, printed, s!"Error: {error.message}\n"⟩
  | failure => ⟨1, printed, failure.message ++ "\n"⟩

def refused : Refusal → Outcome
  | .displayVersion => ⟨0, s!"haruko {Dialogue.version}\n", ""⟩
  | .displayHelp => ⟨0, usage, ""⟩
  | refusal => ⟨refusal.exitCode, "", usage⟩

def toolchain (o : Options) : Toolchain := .new o.printAst o.printBytecode

def runFile (o : Options) (fuel : Nat) (path : String) (contents : Except FileError ByteArray) :
    Option Outcome :=
  match (toolchain o).executeFile fuel path contents with
  | none => none
  | some (printed, result, t) =>
      let printed := printed ++ t.takeOutput.1
      match result with
      | .ok .nil => some ⟨0, printed, ""⟩
      | .ok v => some ⟨0, printed ++ v.repr ++ "\n", ""⟩
      | .error failure => some (failed printed failure)

def compiled (printed : String) : Except Failure String → Outcome
  | .ok path => ⟨0, printed ++ s!"wrote {path}\n", ""⟩
  | .error failure => failed printed failure

def converse (o : Options) (fuel : Nat) (stdin : ByteArray) : Option Outcome :=
  match Transcript.ofInput (toolchain o) fuel stdin with
  | none => none
  | some transcript =>
      match transcript.failure with
      | none => some ⟨0, transcript.stdout, transcript.stderr⟩
      | some failure =>
          let outcome := failed transcript.stdout failure
          some { outcome with stderr := transcript.stderr ++ outcome.stderr }

def invoke (arguments : List String) (fuel : Nat) (d : Directory) (stdin : ByteArray) :
    Option (Outcome × Directory) :=
  match Options.ofArguments arguments with
  | .error refusal => some (refused refusal, d)
  | .ok o =>
      match o.command with
      | some (.run path) => (runFile o fuel path (d.read path)).map (·, d)
      | some (.compile path output) =>
          let (printed, result, d) := (toolchain o).compileFileIn d path output
          some (compiled printed result, d)
      | none =>
          if o.repl then (converse o fuel stdin).map (·, d)
          else some (⟨0, usage, ""⟩, d)

end LispMachine.CommandLine
