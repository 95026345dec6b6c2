import LispMachine.Artifact.Reading
import LispMachine.Machine.Step

set_option autoImplicit false

namespace LispMachine

structure Machine (σ : Type) where
  world : World σ
  limit : Nat

namespace Machine

variable {σ : Type}

def defaultLimit : Nat := 10000

def new (output : σ) : Machine σ := ⟨⟨∅, output⟩, defaultLimit⟩

def withLimit (m : Machine σ) (limit : Nat) : Machine σ := { m with limit := max limit 1 }

def global? (m : Machine σ) (name : String) : Option Value := m.world.globals[name]?

def run [LineSink σ] (m : Machine σ) (fuel : Nat) (unit : CompiledUnit) :
    Option (Except Fault Value × Machine σ) :=
  match m with
  | ⟨⟨_, output⟩, limit⟩ =>
      match runFor unit limit fuel (start unit ⟨∅, output⟩) with
      | some (result, world) => some (result, ⟨world, limit⟩)
      | none => none

def load (bytes : List UInt8) : Except Fault CompiledUnit :=
  (CompiledUnit.ofBytes bytes).mapError .load

def execute [LineSink σ] (m : Machine σ) (fuel : Nat) (bytes : List UInt8) :
    Option (Except Fault Value × Machine σ) :=
  match load bytes with
  | .ok unit => m.run fuel unit
  | .error fault => some (.error fault, m)

end Machine

end LispMachine
