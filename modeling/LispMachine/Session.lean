import LispMachine.Text.Blank
import LispMachine.Toolchain

set_option autoImplicit false

namespace LispMachine

/-- Entries are numbered whether or not they succeed. -/
structure Session where
  entries : UInt32

namespace Session

def new : Session := ⟨0⟩

def nextName (s : Session) : String × Session :=
  let entries := s.entries + 1
  (s!"Repl{entries.toNat}", ⟨entries⟩)

def eval (s : Session) (t : Toolchain) (fuel : Nat) (text : String) :
    Option (String × Except Failure Value × Toolchain × Session) :=
  let (name, s) := s.nextName
  match t.executeSource fuel name text with
  | some (printed, result, t) => some (printed, result, t, s)
  | none => none

end Session

inductive Reading
  | code
  | string
  | escaped
  | comment
  deriving DecidableEq

/-- Open brackets so far, braces not counted, and how the next character is read. -/
structure Balance where
  depth : Int
  reading : Reading

namespace Balance

def start : Balance := ⟨0, .code⟩

def next (b : Balance) (c : Char) : Balance :=
  match b.reading with
  | .comment => if c = '\n' then { b with reading := .code } else b
  | .escaped => { b with reading := .string }
  | .string =>
      if c = '\\' then { b with reading := .escaped }
      else if c = '"' then { b with reading := .code }
      else b
  | .code =>
      if c = '"' then { b with reading := .string }
      else if c = ';' then { b with reading := .comment }
      else if c = '(' || c = '[' then { b with depth := b.depth + 1 }
      else if c = ')' || c = ']' then { b with depth := b.depth - 1 }
      else b

def isComplete (b : Balance) : Bool :=
  b.depth ≤ 0 && b.reading ≠ .string && b.reading ≠ .escaped

end Balance

-- Whether an entry can be evaluated; one with too many closing brackets can, and is refused
-- then.
def isInputComplete (text : String) : Bool := (text.toList.foldl Balance.next .start).isComplete

structure Dialogue where
  toolchain : Toolchain
  session : Session
  entry : String

structure Reply where
  stdout : String
  stderr : String
  next : Option Dialogue

namespace Dialogue

def new (t : Toolchain) : Dialogue := ⟨t, .new, ""⟩

def version : String := "0.1.0"

def banner : String := s!"Haruko v{version}\nType an expression or 'exit' to quit.\n\n"

def farewell : String := "Goodbye!\n"

def help : String :=
  "REPL Commands:\n" ++
    "  .help     - Show this help message\n" ++
    "  .exit     - Exit the REPL\n" ++
    "  exit      - Exit the REPL\n" ++
    "  quit      - Exit the REPL\n"

def evaluate (d : Dialogue) (fuel : Nat) (text : String) : Option Reply :=
  match d.session.eval d.toolchain fuel text with
  | none => none
  | some (printed, result, toolchain, session) =>
      let (output, toolchain) := toolchain.takeOutput
      let next := some ⟨toolchain, session, ""⟩
      match result with
      | .ok .nil => some ⟨printed ++ output, "", next⟩
      | .ok v => some ⟨printed ++ output ++ v.repr ++ "\n", "", next⟩
      | .error failure => some ⟨printed ++ output, failure.message ++ "\n", next⟩

def extend (d : Dialogue) (fuel : Nat) (text : String) : Option Reply :=
  if isInputComplete text then d.evaluate fuel text
  else some ⟨"", "", some { d with entry := text }⟩

-- Take one line. Commands count only where an entry begins.
def feed (d : Dialogue) (fuel : Nat) (line : String) : Option Reply :=
  if d.entry = "" then
    match String.ofList (Text.trim line) with
    | "exit" | ".exit" | "quit" => some ⟨farewell, "", none⟩
    | ".help" => some ⟨help, "", some d⟩
    | "" => some ⟨"", "", some d⟩
    | _ => d.extend fuel line
  else d.extend fuel (d.entry ++ "\n" ++ line)

def feedBytes (d : Dialogue) (fuel : Nat) (line : List UInt8) : Except Failure (Option Reply) :=
  match String.fromUTF8? line.toByteArray with
  | some text => .ok (d.feed fuel text)
  | none => .error (.dialogue s!"Readline error: {FileError.invalidText.message}")

end Dialogue

structure Transcript where
  stdout : String
  stderr : String
  failure : Option Failure

namespace Transcript

def splitLines (bytes : List UInt8) : List (List UInt8) :=
  let finish (line : List UInt8) : List UInt8 :=
    match line with
    | 13 :: rest => rest.reverse
    | line => line.reverse
  let (lines, last) := bytes.foldl
    (fun (lines, line) b => if b = 10 then (finish line :: lines, []) else (lines, b :: line))
    (([], []) : List (List UInt8) × List UInt8)
  (if last.isEmpty then lines else last.reverse :: lines).reverse

def extend (before : Transcript) (reply : Reply) : Transcript :=
  ⟨before.stdout ++ reply.stdout, before.stderr ++ reply.stderr, none⟩

def feedAll (fuel : Nat) (before : Transcript) (d : Dialogue) :
    List (List UInt8) → Option Transcript
  | [] => some { before with stdout := before.stdout ++ "\n" ++ Dialogue.farewell }
  | line :: rest =>
      match d.feedBytes fuel line with
      | .error failure => some { before with failure := some failure }
      | .ok none => none
      | .ok (some reply) =>
          match reply.next with
          | none => some (before.extend reply)
          | some d => feedAll fuel (before.extend reply) d rest

def ofInput (t : Toolchain) (fuel : Nat) (input : ByteArray) : Option Transcript :=
  feedAll fuel ⟨Dialogue.banner, "", none⟩ (.new t) (splitLines input.data.toList)

end Transcript

end LispMachine
