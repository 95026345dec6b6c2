import LispMachine.Proofs.Compiler.Artifacts
import LispMachine.Session

set_option autoImplicit false

namespace LispMachine

theorem generate_name (r : Resolution) (program : Expression) (a b : String) :
    generate r b program = (fun unit => { unit with name := b }) <$> generate r a program := by
  simp only [generate, map_bind, map_pure]

theorem compile_name (text a b : String) :
    compile b text = (fun unit => { unit with name := b }) <$> compile a text := by
  simp only [compile, compileProgram, map_bind, ← generate_name]

namespace Machine

structure Wrote (m : Machine Buffer) (before : ByteArray) : Prop where
  output : m.world.output = ⟨before, none, true⟩
  limit : m.limit = defaultLimit

-- All runs are images of one, whose output holds nothing but what it wrote itself.
theorem run_wrote {unit : CompiledUnit} (forward : ∀ chunk ∈ unit.chunks, chunk.LeadsForward) :
    ∃ result written, ∀ (m : Machine Buffer) (before : ByteArray), m.Wrote before →
      ∃ m', (∀ fuel, unit.stepBound defaultLimit < fuel → m.run fuel unit = some (result, m')) ∧
        m'.Wrote (before ++ written) := by
  obtain ⟨result, alone, ran⟩ := (new Buffer.Written.nothing).run_halts forward
  refine ⟨result, alone.world.output.bytes, fun m before wrote =>
    ⟨alone.map (Buffer.behind before), fun fuel enough => ?_, rfl, run_limit (ran _ (Nat.lt_succ_self _))⟩⟩
  have output : m.world.output = Buffer.behind before .nothing := by
    rw [wrote.output, Buffer.behind, Buffer.Written.nothing, ByteArray.append_empty]
  calc m.run fuel unit
      = ((new Buffer.Written.nothing).map (Buffer.behind before)).run fuel unit :=
        run_globals output wrote.limit fuel
    _ = some (result, alone.map (Buffer.behind before)) := by
        rw [run_map (Buffer.carries_behind before), ran fuel enough, Option.map_some]

end Machine

namespace Toolchain

theorem compileSource_result (t : Toolchain) (name text : String) :
    (t.compileSource name text).2 = (compile name text).mapError .compile := by
  cases parsed : parse text with
  | error d =>
      simp only [compileSource, compile, parsed, bind, Except.bind]
      rfl
  | ok program =>
      simp only [compileSource, compile, parsed, bind, Except.bind]
      cases compileProgram name program <;> rfl

theorem executeSource_error {name text : String} {d : Diagnostic} (refused : compile name text = .error d)
    (t : Toolchain) (fuel : Nat) : t.executeSource fuel name text =
      some ((t.compileSource name text).1, .error (.compile d), t) := by
  have given := t.compileSource_result name text
  rw [refused] at given
  rw [executeSource]
  generalize t.compileSource name text = found at given ⊢
  obtain ⟨printed, result⟩ := found
  cases given
  rfl

theorem executeSource_ok {name text : String} {unit : CompiledUnit} (compiled : compile name text = .ok unit)
    (t : Toolchain) (fuel : Nat) : t.executeSource fuel name text =
      (t.machine.execute fuel unit.bytes).map fun (result, machine) =>
        ((t.compileSource name text).1, result.mapError .run, { t with machine }) := by
  have given := t.compileSource_result name text
  rw [compiled] at given
  rw [executeSource]
  generalize t.compileSource name text = found at given ⊢
  obtain ⟨printed, result⟩ := found
  cases given
  obtain ⟨printAst, printBytecode, machine⟩ := t
  simp only
  cases machine.execute fuel unit.bytes <;> rfl

def Brings (t : Toolchain) (name text : String) (result : Except Failure Value) (t' : Toolchain) : Prop :=
  ∃ least, ∀ fuel, least ≤ fuel →
    t.executeSource fuel name text = some ((t.compileSource name text).1, result, t')

def Always (text : String) (result : Except Failure Value) (written : ByteArray) : Prop :=
  ∀ (t : Toolchain) (before : ByteArray), t.machine.Wrote before →
    ∀ name : String, name.utf8ByteSize < 2 ^ 32 →
      ∃ t', t.Brings name text result t' ∧ t'.machine.Wrote (before ++ written)

theorem exists_always {text : String} (short : text.length < 2 ^ 30) :
    ∃ result written, Always text result written := by
  cases compiled : compile "" text with
  | error d =>
      refine ⟨.error (.compile d), .empty, fun t before wrote name _ => ⟨t, ⟨0, fun fuel _ => ?_⟩, ?_⟩⟩
      · have refused := compile_name text "" name
        rw [compiled] at refused
        exact executeSource_error refused t fuel
      · rw [ByteArray.append_empty]
        exact wrote
  | ok unit =>
      obtain ⟨_, _, _, _, _, _, implements⟩ := compile_implements compiled
      obtain ⟨result, written, runs⟩ := Machine.run_wrote implements.leadsForward
      refine ⟨result.mapError .run, written, fun t before wrote name short_name => ?_⟩
      obtain ⟨machine, ran, wrote⟩ := runs t.machine before wrote
      have named := compile_name text "" name
      rw [compiled] at named
      refine ⟨{ t with machine }, ⟨unit.stepBound Machine.defaultLimit + 1, fun fuel enough => ?_⟩, wrote⟩
      have alike : CompiledUnit.Alike { unit with name } unit := ⟨rfl, rfl, rfl⟩
      rw [executeSource_ok named, t.machine.execute_bytes (compile_fits short_name short named),
        Machine.run_alike alike, ran fuel enough, Option.map_some]

def Alone (text : String) (result : Except Failure Value) (written : ByteArray) : Prop :=
  ∀ (printAst printBytecode : Bool) (name : String), name.utf8ByteSize < 2 ^ 32 →
    ∃ t', (new printAst printBytecode).Brings name text result t' ∧ t'.machine.world.output.bytes = written

theorem wrote_new (printAst printBytecode : Bool) : (new printAst printBytecode).machine.Wrote .empty :=
  ⟨rfl, rfl⟩

theorem Always.alone {text : String} {result : Except Failure Value} {written : ByteArray}
    (always : Always text result written) : Alone text result written := by
  intro printAst printBytecode name short_name
  obtain ⟨t', brings, wrote⟩ := always _ _ (wrote_new printAst printBytecode) name short_name
  refine ⟨t', brings, ?_⟩
  rw [wrote.output, ByteArray.empty_append]

inductive Separately : List String → List (Except Failure Value) → ByteArray → Prop
  | nil : Separately [] [] .empty
  | cons {text : String} {rest : List String} {result : Except Failure Value}
      {results : List (Except Failure Value)} {written output : ByteArray} :
      Alone text result written → Separately rest results output →
        Separately (text :: rest) (result :: results) (written ++ output)

end Toolchain

namespace Session

def evalAll (s : Session) (t : Toolchain) (fuel : Nat) :
    List String → Option (List (Except Failure Value) × Toolchain × Session)
  | [] => some ([], t, s)
  | text :: rest => do
      let (_, result, t, s) ← s.eval t fuel text
      let (results, t, s) ← s.evalAll t fuel rest
      return (result :: results, t, s)

theorem nextName_short (s : Session) : s.nextName.1.utf8ByteSize < 2 ^ 32 := by
  have digits : (toString (s.entries + 1).toNat).length ≤ 10 :=
    (Nat.length_repr_le_iff (by decide)).mpr (Nat.lt_of_lt_of_le (UInt32.toNat_lt _) (by decide))
  have bytes := utf8ByteSize_le (toString (s.entries + 1).toNat)
  have letters : (toString "Repl").utf8ByteSize = 4 := by decide
  rw [nextName, String.utf8ByteSize_append]
  omega

theorem eval_brings {s : Session} {t t' : Toolchain} {text : String} {result : Except Failure Value}
    (brings : t.Brings s.nextName.1 text result t') :
    ∃ least printed, ∀ fuel, least ≤ fuel → s.eval t fuel text = some (printed, result, t', s.nextName.2) := by
  obtain ⟨least, ran⟩ := brings
  refine ⟨least, (t.compileSource s.nextName.1 text).1, fun fuel enough => ?_⟩
  simp only [eval, ran fuel enough]

-- The entries before have left the toolchain with their output, which is all that is left of them.
theorem evalAll_separately {texts : List String} (short : ∀ text ∈ texts, text.length < 2 ^ 30) :
    ∀ {s : Session} {t : Toolchain} {before : ByteArray}, t.machine.Wrote before →
      ∃ results output, Toolchain.Separately texts results output ∧
        ∃ least t' s', (∀ fuel, least ≤ fuel → s.evalAll t fuel texts = some (results, t', s')) ∧
          t'.machine.Wrote (before ++ output) := by
  induction texts with
  | nil =>
      intro s t before wrote
      refine ⟨[], .empty, .nil, 0, t, s, fun _ _ => rfl, ?_⟩
      rw [ByteArray.append_empty]
      exact wrote
  | cons text rest ih =>
      intro s t before wrote
      obtain ⟨result, written, always⟩ := Toolchain.exists_always (short text (.head _))
      obtain ⟨t₁, brings, wrote⟩ := always t before wrote s.nextName.1 s.nextName_short
      obtain ⟨first, printed, evaluated⟩ := eval_brings brings
      obtain ⟨results, output, separately, later, t', s', followed, wrote⟩ :=
        ih (fun text member => short text (.tail _ member)) (s := s.nextName.2) wrote
      refine ⟨result :: results, written ++ output, .cons always.alone separately, max first later, t', s', ?_, ?_⟩
      · intro fuel enough
        rw [evalAll, evaluated fuel (by omega)]
        simp only [Option.bind_eq_bind, Option.bind_some, followed fuel (by omega)]
        rfl
      · rw [← ByteArray.append_assoc]
        exact wrote

end Session

/-- Whatever is entered, each entry of a session comes to the result that it has alone on a new toolchain,
and the session's output is what the entries write alone, in order. Every entry ends. -/
theorem session_independent {texts : List String} (short : ∀ text ∈ texts, text.length < 2 ^ 30)
    (printAst printBytecode : Bool) :
    ∃ results output, Toolchain.Separately texts results output ∧
      ∃ least t s, t.machine.world.output.bytes = output ∧ ∀ fuel, least ≤ fuel →
        Session.new.evalAll (.new printAst printBytecode) fuel texts = some (results, t, s) := by
  obtain ⟨results, output, separately, least, t, s, evaluated, wrote⟩ :=
    Session.evalAll_separately short (Toolchain.wrote_new printAst printBytecode)
  refine ⟨results, output, separately, least, t, s, ?_, evaluated⟩
  rw [wrote.output, ByteArray.empty_append]

-- The second entry is refused and the fourth fails after it has printed; the third and the last know no `x`.
theorem failing_entries_independent : ∃ results output,
    Toolchain.Separately ["(def x 1)", "(", "(println x)", "(def x 2) (println x) (/ x 0)", "x"]
        results output ∧
      ∃ least t s, t.machine.world.output.bytes = output ∧ ∀ fuel, least ≤ fuel →
        Session.new.evalAll (.new true false) fuel
          ["(def x 1)", "(", "(println x)", "(def x 2) (println x) (/ x 0)", "x"] = some (results, t, s) :=
  session_independent (by decide) true false

end LispMachine
