import LispMachine.Artifact.Word

set_option autoImplicit false

namespace LispMachine.Artifact

inductive TagKind
  | constant
  | opcode
  | builtin
  | positionFlag
  deriving DecidableEq

def TagKind.text : TagKind → String
  | .constant => "constant"
  | .opcode => "opcode"
  | .builtin => "builtin"
  | .positionFlag => "position flag"

inductive DecodeError
  | unexpectedEnd (size : Nat)
  | badMagic
  | unsupportedVersion (version : UInt8)
  | unknownTag (kind : TagKind) (tag : UInt8) (offset : Nat)
  | invalidUtf8 (offset : Nat)
  | trailingBytes (count : Nat)
  deriving DecidableEq

def DecodeError.message : DecodeError → String
  | .unexpectedEnd size => s!"unexpected end of artifact at byte {size}"
  | .badMagic => "invalid magic number"
  | .unsupportedVersion version => s!"unsupported artifact version {version}"
  | .unknownTag kind tag offset => s!"unknown {kind.text} tag {tag} at byte {offset}"
  | .invalidUtf8 offset => s!"invalid UTF-8 string at byte {offset}"
  | .trailingBytes count => s!"{count} trailing bytes after artifact"

structure Cursor where
  rest : List UInt8
  offset : Nat
  size : Nat
  size_eq : offset + rest.length = size

namespace Cursor

def ofBytes (bytes : List UInt8) : Cursor := ⟨bytes, 0, bytes.length, Nat.zero_add _⟩

def remaining (c : Cursor) : Nat := c.size - c.offset

theorem remaining_eq (c : Cursor) : c.remaining = c.rest.length := by
  have := c.size_eq
  simp only [remaining]
  omega

def advance (c : Cursor) (n : Nat) (h : n ≤ c.remaining) : Cursor :=
  { rest := c.rest.drop n
    offset := c.offset + n
    size := c.size
    size_eq := by
      have := c.size_eq
      rw [remaining_eq] at h
      simp only [List.length_drop]
      omega }

end Cursor

abbrev Reader (α : Type) := Cursor → Except DecodeError (α × Cursor)

namespace Reader

instance : Monad Reader where
  pure a := fun c => .ok (a, c)
  bind read next := fun c =>
    match read c with
    | .ok (a, c) => next a c
    | .error e => .error e

def fail {α : Type} (e : DecodeError) : Reader α := fun _ => .error e

def offset : Reader Nat := fun c => .ok (c.offset, c)

def take (n : Nat) : Reader (List UInt8) := fun c =>
  if h : n ≤ c.remaining then .ok (c.rest.take n, c.advance n h) else .error (.unexpectedEnd c.size)

def word (width : Nat) : Reader Nat := do
  let bytes ← take width
  return ofLittleEndian bytes

def byte : Reader UInt8 := do return UInt8.ofNat (← word 1)

def word16 : Reader UInt16 := do return UInt16.ofNat (← word 2)

def word32 : Reader UInt32 := do return UInt32.ofNat (← word 4)

def word64 : Reader UInt64 := do return UInt64.ofNat (← word 8)

def text : Reader String := do
  let size ← word 4
  let start ← offset
  let bytes ← take size
  match String.fromUTF8? bytes.toByteArray with
  | some s => return s
  | none => fail (.invalidUtf8 start)

def appendItems {α : Type} (read : Reader α) : Nat → Array α → Reader (Array α)
  | 0, items, c => .ok (items, c)
  | count + 1, items, c =>
      match read c with
      | .ok (item, c) => appendItems read count (items.push item) c
      | .error e => .error e

def items {α : Type} (read : Reader α) (count : Nat) : Reader (Array α) :=
  appendItems read count #[]

end Reader

end LispMachine.Artifact
