import LispMachine.Text.Lossy

set_option autoImplicit false

namespace LispMachine

/-- Something that takes lines of program output and may refuse one, giving the reason; it may have
taken part of a line that it refuses. -/
class LineSink (σ : Type) where
  writeLine : σ → String → σ × Option String

/-- Output kept in memory. `room` bounds the bytes it takes in its life; without `flushes` no line is
ever complete. -/
structure Buffer where
  bytes : ByteArray
  room : Option Nat
  flushes : Bool

namespace Buffer

def unbounded : Buffer := ⟨.empty, none, true⟩

def contents (b : Buffer) : String := Text.lossy b.bytes

def clear (b : Buffer) : Buffer := { b with bytes := .empty }

def append (b : Buffer) (bytes : ByteArray) : Buffer :=
  match b with
  | ⟨before, room, flushes⟩ => ⟨before ++ bytes, room, flushes⟩

def write (b : Buffer) (bytes : ByteArray) : Buffer × Bool :=
  match b with
  | ⟨before, none, flushes⟩ => (⟨before ++ bytes, none, flushes⟩, true)
  | ⟨before, some room, flushes⟩ =>
      if bytes.size ≤ room then (⟨before ++ bytes, some (room - bytes.size), flushes⟩, true)
      else (⟨before ++ bytes.extract 0 room, some 0, flushes⟩, false)

def writeLine (b : Buffer) (text : String) : Buffer × Option String :=
  match b.write (text ++ "\n").toUTF8 with
  | (b, false) => (b, some "sink is full")
  | (b, true) => if b.flushes then (b, none) else (b, some "flush failed")

instance : LineSink Buffer := ⟨writeLine⟩

end Buffer

end LispMachine
