set_option autoImplicit false

namespace LispMachine.Text

/-- A character that has begun: its bits so far, how many bytes it still needs, and the bounds of the
next one. -/
structure Pending where
  bits : Nat
  needed : Nat
  low : Nat
  high : Nat

-- What a first byte starts; the bounds exclude overlong forms, surrogates and code points past the
-- last.
def startByte (byte : Nat) : Option Pending :=
  if 0xc2 ≤ byte ∧ byte ≤ 0xdf then some ⟨byte - 0xc0, 1, 0x80, 0xbf⟩
  else if byte = 0xe0 then some ⟨0, 2, 0xa0, 0xbf⟩
  else if byte = 0xed then some ⟨0xd, 2, 0x80, 0x9f⟩
  else if 0xe1 ≤ byte ∧ byte ≤ 0xef then some ⟨byte - 0xe0, 2, 0x80, 0xbf⟩
  else if byte = 0xf0 then some ⟨0, 3, 0x90, 0xbf⟩
  else if 0xf1 ≤ byte ∧ byte ≤ 0xf3 then some ⟨byte - 0xf0, 3, 0x80, 0xbf⟩
  else if byte = 0xf4 then some ⟨4, 3, 0x80, 0x8f⟩
  else none

def replacement : Char := '\ufffd'

def lossyFresh (out : String) (byte : Nat) : String × Option Pending :=
  if byte < 0x80 then (out.push (Char.ofNat byte), none)
  else
    match startByte byte with
    | some pending => (out, some pending)
    | none => (out.push replacement, none)

def lossyStep (state : String × Option Pending) (byte : UInt8) : String × Option Pending :=
  match state with
  | (out, none) => lossyFresh out byte.toNat
  | (out, some pending) =>
      let n := byte.toNat
      if pending.low ≤ n ∧ n ≤ pending.high then
        let bits := pending.bits * 64 + (n - 0x80)
        if pending.needed = 1 then (out.push (Char.ofNat bits), none)
        else (out, some ⟨bits, pending.needed - 1, 0x80, 0xbf⟩)
      else lossyFresh (out.push replacement) n

def lossy (bytes : ByteArray) : String :=
  match String.fromUTF8? bytes with
  | some text => text
  | none =>
      match bytes.data.foldl lossyStep ("", none) with
      | (out, none) => out
      | (out, some _) => out.push replacement

end LispMachine.Text
