set_option autoImplicit false

namespace LispMachine.CommandLine

inductive Command
  | run (path : String)
  | compile (path : String) (output : Option String)
  deriving DecidableEq

structure Options where
  command : Option Command
  repl : Bool
  printAst : Bool
  printBytecode : Bool
  verbose : Nat
  deriving DecidableEq

def Options.logFilter (o : Options) : String :=
  match o.verbose with
  | 0 => "warn"
  | 1 => "info"
  | 2 => "debug"
  | _ => "trace"

inductive Refusal
  | displayHelp
  | displayVersion
  | missingArgument
  | unknownArgument
  | unknownSubcommand
  | invalidValue
  | unwantedValue
  | repeatedArgument
  deriving DecidableEq

def Refusal.exitCode : Refusal → Nat
  | .displayHelp | .displayVersion => 0
  | _ => 2

inductive Scope
  | program
  | run
  | compile
  deriving DecidableEq

def subcommand? : String → Option Scope
  | "run" => some .run
  | "compile" => some .compile
  | _ => none

inductive Flag
  | repl
  | printAst
  | printBytecode
  | verbose
  | help
  | version
  | output
  deriving DecidableEq

def Flag.isKnownIn (flag : Flag) (scope : Scope) : Bool :=
  match flag with
  | .repl | .version => scope = .program
  | .output => scope = .compile
  | _ => true

def Flag.ofLong? : String → Option Flag
  | "repl" => some .repl
  | "print-ast" => some .printAst
  | "print-bytecode" => some .printBytecode
  | "verbose" => some .verbose
  | "help" => some .help
  | "version" => some .version
  | "output" => some .output
  | _ => none

def Flag.ofShort? : Char → Option Flag
  | 'r' => some .repl
  | 'v' => some .verbose
  | 'h' => some .help
  | 'V' => some .version
  | 'o' => some .output
  | _ => none

inductive Pending
  | nothing
  | path (text : String)
  | output (value : Option String)
  deriving DecidableEq

structure Reader where
  scope : Scope
  repl : Bool
  printAst : Bool
  printBytecode : Bool
  verbose : Nat
  path : Option String
  output : Option String
  pending : Pending

namespace Reader

def start (scope : Scope) : Reader := ⟨scope, false, false, false, 0, none, none, .nothing⟩

def setOutput (r : Reader) (value : String) : Except Refusal Reader :=
  if r.output.isSome then .error .repeatedArgument
  else if value = "" then .error .invalidValue
  else .ok { r with output := some value }

def settle (r : Reader) : Except Refusal Reader :=
  let settled := { r with pending := .nothing }
  match r.pending with
  | .nothing => .ok settled
  | .path text => if text = "" then .error .invalidValue else .ok { settled with path := some text }
  | .output none => .error .invalidValue
  | .output (some value) => settled.setOutput value

def raise (r : Reader) (flag : Flag) : Except Refusal Reader := do
  let r ← r.settle
  match flag with
  | .help => throw .displayHelp
  | .version => throw .displayVersion
  | .repl => if r.repl then throw .repeatedArgument else return { r with repl := true }
  | .printAst => if r.printAst then throw .repeatedArgument else return { r with printAst := true }
  | .printBytecode =>
      if r.printBytecode then throw .repeatedArgument else return { r with printBytecode := true }
  | .verbose => return { r with verbose := min (r.verbose + 1) 255 }
  | .output => return { r with pending := .output none }

def long (r : Reader) (text : String) : Except Refusal Reader :=
  let name := String.ofList (text.toList.takeWhile (· ≠ '='))
  let value := (text.toList.dropWhile (· ≠ '=')).tail?.map String.ofList
  match (Flag.ofLong? name).filter (·.isKnownIn r.scope), value with
  | none, _ => .error .unknownArgument
  | some flag, none => r.raise flag
  | some .output, some value => do (← r.settle).setOutput value
  | some _, some _ => .error .unwantedValue

-- Letters behind one dash are flags of their own, up to one that takes the rest as its value.
def shorts (r : Reader) : List Char → Except Refusal Reader
  | [] => .ok r
  | c :: rest =>
      match (Flag.ofShort? c).filter (·.isKnownIn r.scope) with
      | none => .error .unknownArgument
      | some .output =>
          match rest with
          | [] => r.raise .output
          | '=' :: value => do (← r.settle).setOutput (String.ofList value)
          | value => do (← r.settle).setOutput (String.ofList value)
      | some flag => do (← r.raise flag).shorts rest

def positional (r : Reader) (literal : Bool) (text : String) : Except Refusal Reader :=
  match r.scope, r.pending, r.path with
  | .program, _, _ =>
      if literal && ((subcommand? text).isSome || text = "help") then .error .unknownArgument
      else .error .unknownSubcommand
  | _, .path _, _ | _, _, some _ => .error .unknownArgument
  | _, _, none => do return { ← r.settle with pending := .path text }

def argument (r : Reader) (literal : Bool) (text : String) : Except Refusal Reader :=
  if literal then r.positional true text
  else
    match text.toList with
    | '-' :: '-' :: rest => r.long (String.ofList rest)
    | '-' :: c :: rest => r.shorts (c :: rest)
    | _ =>
        match r.pending with
        | .output none => .ok { r with pending := .output (some text) }
        | _ => r.positional false text

def finish (r : Reader) : Except Refusal (Reader × Option Command) := do
  let r ← r.settle
  match r.scope, r.path with
  | .program, _ => return (r, none)
  | _, none => throw .missingArgument
  | .run, some path => return (r, some (.run path))
  | .compile, some path => return (r, some (.compile path r.output))

def readAll (r : Reader) (literal : Bool) : List String → Except Refusal (Reader × Option Command)
  | [] => r.finish
  | text :: rest =>
      if !literal && text = "--" then r.readAll true rest
      else do (← r.argument literal text).readAll literal rest

end Reader

def helpOn : List String → Refusal
  | [] => .displayHelp
  | [text] =>
      if (subcommand? text).isSome || text = "help" then .displayHelp else .unknownSubcommand
  | _ => .unknownSubcommand

-- Printing is on when either scope asks for it; the innermost count of `verbose` wins.
def Options.combine (outer inner : Reader) (command : Option Command) : Options :=
  { command
    repl := outer.repl
    printAst := outer.printAst || inner.printAst
    printBytecode := outer.printBytecode || inner.printBytecode
    verbose := if inner.verbose = 0 then outer.verbose else inner.verbose }

def readProgram (r : Reader) (literal : Bool) : List String → Except Refusal Options
  | [] => do
      let (r, command) ← r.finish
      return .combine r (.start .program) command
  | text :: rest =>
      if literal then do readProgram (← r.argument true text) true rest
      else if text = "--" then readProgram r true rest
      else if text = "help" then .error (helpOn rest)
      else
        match subcommand? text with
        | some scope => do
            let (inner, command) ← (Reader.start scope).readAll false rest
            return .combine r inner command
        | none => do readProgram (← r.argument false text) false rest

def Options.ofArguments (arguments : List String) : Except Refusal Options :=
  readProgram (.start .program) false arguments

end LispMachine.CommandLine
