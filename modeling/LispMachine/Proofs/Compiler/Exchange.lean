import LispMachine.Proofs.Compiler
import LispMachine.Proofs.Exchange.Evaluation
import LispMachine.Proofs.Exchange.Generator

set_option autoImplicit false

namespace LispMachine

open Expression

theorem exchanged_append {rest : List Expression} (more : rest ≠ []) (before : List Expression) (d d' : Definition) :
    Exchanged (before ++ d.form :: d'.form :: rest) (before ++ d'.form :: d.form :: rest) := by
  obtain ⟨next, rest, rfl⟩ := List.exists_cons_of_ne_nil more
  induction before with
  | nil => exact .here
  | cons e before ih => exact .later ih

section Programs

variable {forms forms' : List Expression} {name : String} {p : Position}

-- The code of the exchanged program reaches no limit, and nothing else can stop it.
theorem compileProgram_exchange (exchanged : Exchanged forms forms') (distinct : (nodesAll forms).Nodup)
    (admitted : ∀ e ∈ forms, e.Admitted 0) {unit : CompiledUnit}
    (compiled : compileProgram name (.block forms p) = .ok unit) :
    ∃ unit', compileProgram name (.block forms' p) = .ok unit' := by
  obtain ⟨r, resolved, generated⟩ := bind_ok.mp compiled
  obtain ⟨r', resolved'⟩ := (Resolution.resolve_exchange exchanged admitted p).mp ⟨r, resolved⟩
  have parallel := Resolution.resolve_exchange_parallel exchanged distinct admitted resolved resolved'
  have implements := generate_implements (Resolution.resolve_covers distinct resolved) generated
  have unlimited := generate_exchange exchanged generated implements parallel
  have covered' := Resolution.resolve_covers (exchanged.nodes.nodup_iff.mp distinct) resolved'
  have bounded : Generator.Bounded (generate r' name (.block forms' p)) :=
    generate_bounded covered' (exchanged.forall_mem admitted)
  cases generated' : generate r' name (.block forms' p) with
  | ok unit' => exact ⟨unit', bind_ok.mpr ⟨r', resolved', generated'⟩⟩
  | error d =>
      rw [generated'] at unlimited
      exact (unlimited (bounded d generated')).elim

theorem run_exchange (exchanged : Exchanged forms forms') (distinct : (nodesAll forms).Nodup)
    (admitted : ∀ e ∈ forms, e.Admitted 0) {unit unit' : CompiledUnit}
    (compiled : compileProgram name (.block forms p) = .ok unit)
    (compiled' : compileProgram name (.block forms' p) = .ok unit') {σ : Type} [LineSink σ] (m : Machine σ) :
    ∃ result m' least, ∀ fuel, least ≤ fuel →
      m.run fuel unit = some (result, m') ∧ m.run fuel unit' = some (result, m') := by
  obtain ⟨r, resolved, generated⟩ := bind_ok.mp compiled
  obtain ⟨r', resolved', generated'⟩ := bind_ok.mp compiled'
  have covered := Resolution.resolve_covers distinct resolved
  have covered' := Resolution.resolve_covers (exchanged.nodes.nodup_iff.mp distinct) resolved'
  have halts := Machine.halts_of_implements (generate_implements covered generated) m.limit m.world.output
  have halts' := Machine.halts_of_implements (generate_implements covered' generated') m.limit m.world.output
  have parallel := Resolution.resolve_exchange_parallel exchanged distinct admitted resolved resolved'
  rw [← evaluateProgram_exchange exchanged covered covered' parallel] at halts'
  obtain ⟨least, runs⟩ := Machine.run_of_halts halts
  obtain ⟨least', runs'⟩ := Machine.run_of_halts halts'
  refine ⟨_, _, max least least', fun fuel enough => ⟨runs fuel ?_, runs' fuel ?_⟩⟩
  · exact Nat.le_trans (Nat.le_max_left _ _) enough
  · exact Nat.le_trans (Nat.le_max_right _ _) enough

end Programs

/-- Two functions that stand next to each other and not at the end of a program can change places. The program
is then resolved if and only if it was before, and compiled if and only if it was before, to a unit that runs
to the same value or fault and leaves the same output and the same globals on every machine. -/
theorem compile_exchange {text : String} {before rest : List Expression} {d d' : Definition} {p : Position}
    (parsed : parse text = .ok (.block (before ++ d.form :: d'.form :: rest) p)) (more : rest ≠ [])
    (name : String) :
    ((∃ r, resolve (.block (before ++ d.form :: d'.form :: rest) p) = .ok r) ↔
      ∃ r, resolve (.block (before ++ d'.form :: d.form :: rest) p) = .ok r) ∧
    ((∃ unit, compileProgram name (.block (before ++ d.form :: d'.form :: rest) p) = .ok unit) ↔
      ∃ unit, compileProgram name (.block (before ++ d'.form :: d.form :: rest) p) = .ok unit) ∧
    ∀ unit unit',
      compileProgram name (.block (before ++ d.form :: d'.form :: rest) p) = .ok unit →
      compileProgram name (.block (before ++ d'.form :: d.form :: rest) p) = .ok unit' →
      ∀ (σ : Type) [LineSink σ] (m : Machine σ), ∃ result m' least, ∀ fuel, least ≤ fuel →
        m.run fuel unit = some (result, m') ∧ m.run fuel unit' = some (result, m') := by
  have exchanged := exchanged_append more before d d'
  obtain ⟨forms, q, shape, distinct, admitted⟩ := parse_forms parsed
  cases shape
  have distinct' := exchanged.nodes.nodup_iff.mp distinct
  have admitted' := exchanged.forall_mem admitted
  refine ⟨Resolution.resolve_exchange exchanged admitted p, ⟨?_, ?_⟩, fun unit unit' one two σ _ m => ?_⟩
  · rintro ⟨_, compiled⟩
    exact compileProgram_exchange exchanged distinct admitted compiled
  · rintro ⟨_, compiled⟩
    exact compileProgram_exchange exchanged.symm distinct' admitted' compiled
  · exact run_exchange exchanged distinct admitted one two m

section PingPong

open Unfolding

def ping : Definition :=
  ⟨"ping", ["x"], .call "pong" [.symbol "x" ⟨1, 22, 21⟩] ⟨1, 16, 15⟩, ⟨1, 1, 0⟩⟩

def pong : Definition :=
  ⟨"pong", ["x"], .call "ping" [.symbol "x" ⟨1, 47, 46⟩] ⟨1, 41, 40⟩, ⟨1, 26, 25⟩⟩

def serve : Expression := .call "ping" [.constant (.datum (.long 1)) ⟨1, 57, 56⟩] ⟨1, 51, 50⟩

theorem parse_pingPong : parse "(defn ping [x] (pong x)) (defn pong [x] (ping x)) (ping 1)" =
    .ok (.block [ping.form, pong.form, serve] ⟨1, 1, 0⟩) := by
  with_unfolding_all rfl

theorem compile_pingPong :
    ∃ unit, compileProgram "rally" (.block [ping.form, pong.form, serve] ⟨1, 1, 0⟩) = .ok unit := by
  have unset : Array.replicate 2 (none : Option Chunk) = #[none, none] := rfl
  apply exists_of_toBool
  simp [ping, pong, serve, Definition.form, unset]

theorem pingPong_exchanged : ∃ unit unit',
    compileProgram "rally" (.block [ping.form, pong.form, serve] ⟨1, 1, 0⟩) = .ok unit ∧
    compileProgram "rally" (.block [pong.form, ping.form, serve] ⟨1, 1, 0⟩) = .ok unit' ∧
    ∃ result m' least, ∀ fuel, least ≤ fuel →
      (Machine.new Buffer.unbounded).run fuel unit = some (result, m') ∧
      (Machine.new Buffer.unbounded).run fuel unit' = some (result, m') := by
  obtain ⟨_, compiled, runs⟩ :=
    @compile_exchange _ [] [serve] ping pong _ parse_pingPong (List.cons_ne_nil _ _) "rally"
  obtain ⟨unit, first⟩ := compile_pingPong
  obtain ⟨unit', second⟩ := compiled.mp ⟨unit, first⟩
  exact ⟨unit, unit', first, second, runs unit unit' first second Buffer (.new Buffer.unbounded)⟩

end PingPong

end LispMachine
