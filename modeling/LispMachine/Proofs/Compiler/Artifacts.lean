import LispMachine.Proofs.Compiler.Sizes
import LispMachine.Proofs.Machine.Faults
import LispMachine.Proofs.Machine.Independence
import LispMachine.Proofs.Machine.Termination

set_option autoImplicit false

namespace LispMachine

namespace Machine

variable {σ : Type} [LineSink σ] {unit : CompiledUnit}

theorem execute_bytes (fits : unit.Fits) (m : Machine σ) (fuel : Nat) :
    m.execute fuel unit.bytes = m.run fuel unit := by
  obtain ⟨loaded, found, agrees⟩ := CompiledUnit.ofBytes_bytes fits
  have loads : load unit.bytes = .ok loaded := by
    rw [load, found]
    rfl
  rw [execute, loads]
  exact run_alike ⟨agrees.constants, agrees.methods, agrees.entry⟩ m fuel

theorem run_halts (forward : ∀ chunk ∈ unit.chunks, chunk.LeadsForward) (m : Machine σ) :
    ∃ result m', ∀ fuel, unit.stepBound m.limit < fuel → m.run fuel unit = some (result, m') := by
  obtain ⟨⟨result, world⟩, found⟩ := runFor_halts forward (start_within unit m.limit ⟨∅, m.world.output⟩)
  refine ⟨result, ⟨world, m.limit⟩, fun fuel enough => ?_⟩
  simp only [run, found fuel enough]

end Machine

/-- What is compiled from fewer than 2^30 characters, under a name of fewer than 2^32 bytes, fits into an
artifact. A machine that runs the artifact does what it does when it runs the unit: it comes to the same
result and is left with the same globals and output. So it ends, and never because it could not load. -/
theorem execute_compiled {name text : String} {unit : CompiledUnit}
    (short_name : name.utf8ByteSize < 2 ^ 32) (short : text.length < 2 ^ 30)
    (compiled : compile name text = .ok unit) :
    unit.Fits ∧ ∀ (σ : Type) [LineSink σ] (m : Machine σ),
      (∀ fuel, m.execute fuel unit.bytes = m.run fuel unit) ∧
      ∃ result m', (∀ e, result ≠ .error (.load e)) ∧
        ∀ fuel, unit.stepBound m.limit < fuel → m.execute fuel unit.bytes = some (result, m') := by
  have fits := compile_fits short_name short compiled
  obtain ⟨forms, p, r, _, _, _, implements⟩ := compile_implements compiled
  refine ⟨fits, fun σ _ m => ⟨m.execute_bytes fits, ?_⟩⟩
  obtain ⟨result, m', ran⟩ := m.run_halts implements.leadsForward
  refine ⟨result, m', Machine.run_ne_load (ran _ (Nat.lt_succ_self _)), fun fuel enough => ?_⟩
  rw [m.execute_bytes fits, ran fuel enough]

theorem execute_endless : ∃ unit, compile "endless" "(defn f [x] (f x)) (f 1)" = .ok unit ∧ unit.Fits ∧
    ∃ result m', (∀ e, result ≠ .error (.load e)) ∧ ∀ fuel, unit.stepBound 7 < fuel →
      ((Machine.new Buffer.unbounded).withLimit 7).execute fuel unit.bytes = some (result, m') := by
  obtain ⟨unit, compiled⟩ := compile_endless
  obtain ⟨fits, executes⟩ := execute_compiled (by decide) (by decide) compiled
  exact ⟨unit, compiled, fits, (executes Buffer ((Machine.new Buffer.unbounded).withLimit 7)).2⟩

end LispMachine
