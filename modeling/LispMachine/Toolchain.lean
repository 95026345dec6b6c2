import LispMachine.Code.Listing
import LispMachine.Compiler
import LispMachine.Directory
import LispMachine.Machine

set_option autoImplicit false

namespace LispMachine

inductive Failure
  | compile (reason : Diagnostic)
  | run (reason : Fault)
  | file (reason : FileError)
  | dialogue (text : String)

def Failure.message : Failure → String
  | .compile reason => reason.text
  | .run reason => s!"runtime error: {reason.message}"
  | .file reason => s!"file error: {reason.message}"
  | .dialogue text => s!"REPL error: {text}"

structure Toolchain where
  printAst : Bool
  printBytecode : Bool
  machine : Machine Buffer

namespace Toolchain

def new (printAst printBytecode : Bool) : Toolchain :=
  ⟨printAst, printBytecode, .new .unbounded⟩

def artifactExtension : String := "hku"

def unitName (path : String) : String := (Path.stem? path).getD "Main"

def takeOutput (t : Toolchain) : String × Toolchain :=
  let output := t.machine.world.output
  (output.contents,
    { t with machine := { t.machine with world := { t.machine.world with output := output.clear } } })

-- The unit of a source text, and what compiling it prints. The tree is printed even if a later
-- stage fails.
def compileSource (t : Toolchain) (name text : String) : String × Except Failure CompiledUnit :=
  match parse text with
  | .error diagnostic => ("", .error (.compile diagnostic))
  | .ok program =>
      let tree := if t.printAst then program.source ++ "\n" else ""
      match compileProgram name program with
      | .error diagnostic => (tree, .error (.compile diagnostic))
      | .ok unit => (tree ++ (if t.printBytecode then unit.listing ++ "\n" else ""), .ok unit)

def executeSource (t : Toolchain) (fuel : Nat) (name text : String) :
    Option (String × Except Failure Value × Toolchain) :=
  match t.compileSource name text with
  | (printed, .error failure) => some (printed, .error failure, t)
  | (printed, .ok unit) =>
      match t with
      | ⟨printAst, printBytecode, machine⟩ =>
          match machine.execute fuel unit.bytes with
          | some (result, machine) =>
              some (printed, result.mapError .run, ⟨printAst, printBytecode, machine⟩)
          | none => none

def sourceText (contents : Except FileError ByteArray) : Except Failure String :=
  match contents with
  | .error error => .error (.file error)
  | .ok bytes =>
      match String.fromUTF8? bytes with
      | some text => .ok text
      | none => .error (.file .invalidText)

def executeFile (t : Toolchain) (fuel : Nat) (path : String)
    (contents : Except FileError ByteArray) : Option (String × Except Failure Value × Toolchain) :=
  match sourceText contents with
  | .error failure => some ("", .error failure, t)
  | .ok text => t.executeSource fuel (unitName path) text

def compileFile (t : Toolchain) (path : String) (output : Option String)
    (contents : Except FileError ByteArray) : String × Except Failure (String × ByteArray) :=
  match sourceText contents with
  | .error failure => ("", .error failure)
  | .ok text =>
      match t.compileSource (unitName path) text with
      | (printed, .error failure) => (printed, .error failure)
      | (printed, .ok unit) =>
          let target := output.getD (Path.withExtension path artifactExtension)
          (printed, .ok (target, unit.bytes.toByteArray))

def compileFileIn (t : Toolchain) (d : Directory) (path : String) (output : Option String) :
    String × Except Failure String × Directory :=
  match t.compileFile path output (d.read path) with
  | (printed, .error failure) => (printed, .error failure, d)
  | (printed, .ok (target, bytes)) =>
      match d.write target bytes with
      | .error error => (printed, .error (.file error), d)
      | .ok d => (printed, .ok target, d)

end Toolchain

end LispMachine
