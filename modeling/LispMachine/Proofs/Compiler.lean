import LispMachine.Compiler
import LispMachine.Proofs.Expression.Nodes
import LispMachine.Proofs.Generator.Units
import LispMachine.Proofs.Machine.Independence
import LispMachine.Proofs.Machine.Simulation
import LispMachine.Proofs.Unfolding

set_option autoImplicit false

namespace LispMachine

theorem compile_implements {name text : String} {unit : CompiledUnit}
    (compiled : compile name text = .ok unit) :
    ∃ forms p r, parse text = .ok (.block forms p) ∧ resolve (.block forms p) = .ok r ∧
      generate r name (.block forms p) = .ok unit ∧ unit.Implements r forms p := by
  obtain ⟨program, parsed, compiled⟩ := bind_ok.mp compiled
  obtain ⟨r, resolved, generated⟩ := bind_ok.mp compiled
  obtain ⟨forms, p, rfl, distinct⟩ := parse_block parsed
  have covered := Resolution.resolve_covers distinct resolved
  exact ⟨forms, p, r, parsed, resolved, generated, generate_implements covered generated⟩

section Skipped

open Unfolding

-- The second block defines a name in code that is skipped.
def skipped : Expression :=
  .block
    [.block [.define "a" (.constant (.datum (.long 1)) ⟨1, 12, 11⟩) ⟨1, 5, 4⟩] ⟨1, 1, 0⟩,
      .block
        [.branch (.constant (.bool false) ⟨1, 24, 23⟩)
            (.define "b" (.constant (.datum (.long 2)) ⟨1, 37, 36⟩) ⟨1, 30, 29⟩)
            (.constant (.datum (.long 0)) ⟨1, 40, 39⟩) ⟨1, 20, 19⟩,
          .symbol "b" ⟨1, 43, 42⟩] ⟨1, 16, 15⟩] ⟨1, 1, 0⟩

def skippedResolution : Resolution :=
  { bindings := (((∅ : Std.HashMap Nat Binding).insert 4 (.slot 0)).insert 29 (.slot 0)).insert 42 (.slot 0)
    callees := ∅
    functions := #[] }

theorem parse_skipped : parse "(do (def a 1)) (do (if false (def b 2) 0) b)" = .ok skipped := by
  with_unfolding_all rfl

theorem resolve_skipped : resolve skipped = .ok skippedResolution := by
  simp [skipped, skippedResolution]

theorem skipped_bindings : skippedResolution.bindings[4]? = some (.slot 0) ∧
    skippedResolution.bindings[29]? = some (.slot 0) ∧ skippedResolution.bindings[42]? = some (.slot 0) := by
  simp [skippedResolution, Std.HashMap.getElem_insert]

theorem compile_skipped : ∃ unit,
    compile "skipped" "(do (def a 1)) (do (if false (def b 2) 0) b)" = .ok unit := by
  apply exists_of_toBool
  simp [parse_skipped, skipped]

theorem evaluate_skipped {σ : Type} [LineSink σ] (limit : Nat) (output : σ) :
    skipped.evaluateProgram skippedResolution limit output = (.ok (.long 1), ⟨∅, output⟩) := by
  obtain ⟨first, _, third⟩ := skipped_bindings
  simp [skipped, first, third]

end Skipped

/-- A machine with enough fuel runs a compiled program to the end of its evaluation. Where no line is refused,
what the evaluation has written stands behind what the output held before. -/
theorem run_eq_evaluate {name text : String} {unit : CompiledUnit}
    (compiled : compile name text = .ok unit) :
    ∃ program r, parse text = .ok program ∧ resolve program = .ok r ∧
      generate r name program = .ok unit ∧
      (∀ (σ : Type) [LineSink σ] (m : Machine σ), ∃ least, ∀ fuel, least ≤ fuel →
        m.run fuel unit =
          some ((program.evaluateProgram r m.limit m.world.output).1,
            { m with world := (program.evaluateProgram r m.limit m.world.output).2 })) ∧
      ∀ (globals : Std.HashMap String Value) (before : ByteArray) (limit : Nat),
        ∃ least, ∀ fuel, least ≤ fuel →
          (⟨⟨globals, ⟨before, none, true⟩⟩, limit⟩ : Machine Buffer).run fuel unit =
            match program.evaluateProgram r limit Buffer.Written.nothing with
            | (result, ⟨globals, written⟩) =>
                some (result, ⟨⟨globals, ⟨before ++ written.bytes, none, true⟩⟩, limit⟩) := by
  obtain ⟨forms, p, r, parsed, resolved, generated, implements⟩ := compile_implements compiled
  have runs (σ : Type) [LineSink σ] (m : Machine σ) :=
    Machine.run_of_halts (Machine.halts_of_implements implements m.limit m.world.output)
  refine ⟨.block forms p, r, parsed, resolved, generated, runs, fun globals before limit => ?_⟩
  let m : Machine Buffer.Written := ⟨⟨globals, .nothing⟩, limit⟩
  have behind : m.map (Buffer.behind before) = ⟨⟨globals, ⟨before, none, true⟩⟩, limit⟩ := by
    simp only [m, Machine.map, World.map, Buffer.behind, Buffer.Written.nothing, ByteArray.append_empty]
  obtain ⟨least, ran⟩ := runs _ m
  refine ⟨least, fun fuel enough => ?_⟩
  rw [← behind, Machine.run_map (Buffer.carries_behind before), ran fuel enough]
  rfl

-- The skipped name has the value that the first block left in its slot.
theorem run_skipped : ∃ unit,
    compile "skipped" "(do (def a 1)) (do (if false (def b 2) 0) b)" = .ok unit ∧
      ∃ least, ∀ fuel, least ≤ fuel → (Machine.new Buffer.unbounded).run fuel unit =
        some (.ok (.long 1), Machine.new Buffer.unbounded) := by
  obtain ⟨unit, compiled⟩ := compile_skipped
  obtain ⟨program, r, parsed, resolved, _, runs, _⟩ := run_eq_evaluate compiled
  rw [parse_skipped] at parsed
  cases parsed
  rw [resolve_skipped] at resolved
  cases resolved
  have runs := runs Buffer (Machine.new Buffer.unbounded)
  rw [evaluate_skipped] at runs
  exact ⟨unit, compiled, runs⟩

end LispMachine
