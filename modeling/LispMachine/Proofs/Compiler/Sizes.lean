import Mathlib.Algebra.GroupWithZero.Nat
import LispMachine.Proofs.Artifact.RoundTrip
import LispMachine.Proofs.Compiler.Positions
import LispMachine.Proofs.Token.Lengths

set_option autoImplicit false

namespace LispMachine

open Expression

theorem utf8ByteSize_le (s : String) : s.utf8ByteSize ≤ 4 * s.length := by
  obtain ⟨cs, rfl⟩ : ∃ cs, s = String.ofList cs := ⟨s.toList, String.ofList_toList.symm⟩
  induction cs with
  | nil => simp
  | cons c cs ih =>
      have head := c.utf8Size_le_four
      rw [← List.singleton_append, String.ofList_append, String.utf8ByteSize_append, String.length_append,
        ← String.singleton_eq_ofList, String.utf8ByteSize_singleton, String.length_singleton]
      omega

section Laid

variable {r : Resolution} {m : Method}

theorem LaidStages.size {stages : List Stage} {depth i stop : Nat} (laid : LaidStages r m stages depth i stop) :
    stop = i + stages.length := by
  induction laid with
  | nil => rfl
  | cons _ _ ih =>
      rw [ih, List.length_cons]
      omega

mutual

theorem Laid.size : ∀ {e : Expression} {depth i stop : Nat}, Laid r m e depth i stop →
    stop + 1 ≤ i + 2 * e.nodes.length
  | _, _, _, _, .constant _ _ | _, _, _, _, .symbol _ _ _ _ => Nat.le_refl _
  | _, _, _, _, .function _ _ _ => by
      simp only [nodes, List.length_cons]
      omega
  | _, _, _, _, .define value _ _ _ _ => by
      have := value.size
      simp only [nodes, List.length_cons]
      omega
  | _, _, _, _, .bind _ bound _ body => by
      have := bound.size
      have := body.size
      simp only [nodes, List.length_cons, List.length_append]
      omega
  | _, _, _, _, .branch condition _ yes _ _ no _ => by
      have := condition.size
      have := yes.size
      have := no.size
      simp only [nodes, List.length_cons, List.length_append]
      omega
  | _, _, _, _, .block body => by
      have := body.size
      simp only [nodes, List.length_cons]
      omega
  | _, _, _, _, .cond clauses => by
      have := clauses.size
      simp only [nodes, List.length_cons]
      omega
  | _, _, _, _, .call args _ => by
      have := args.size
      simp only [nodes, List.length_cons]
      omega
  | _, _, _, _, .compose first stages => by
      have := first.size
      have := stages.size
      simp only [nodes, List.length_cons, List.length_append, List.length_map]
      omega

theorem LaidArguments.size : ∀ {es : List Expression} {depth i stop : Nat},
    LaidArguments r m es depth i stop → stop ≤ i + 2 * (nodesAll es).length
  | _, _, _, _, .nil => Nat.le_refl _
  | _, _, _, _, .cons first rest => by
      have := first.size
      have := rest.size
      simp only [nodesAll, List.length_append]
      omega

theorem LaidSequence.size : ∀ {p : Position} {es : List Expression} {depth i stop : Nat},
    LaidSequence r m p es depth i stop → stop ≤ i + 2 * (nodesAll es).length + 1
  | _, _, _, _, _, .nil _ => Nat.le_refl _
  | _, _, _, _, _, .cons first rest => by
      have := first.size
      have := rest.size
      simp only [nodesAll, List.length_append]
      omega

theorem LaidFollowing.size : ∀ {es : List Expression} {depth i stop : Nat},
    LaidFollowing r m es depth i stop → stop ≤ i + 2 * (nodesAll es).length
  | _, _, _, _, .nil => Nat.le_refl _
  | _, _, _, _, .cons _ first rest => by
      have := first.size
      have := rest.size
      simp only [nodesAll, List.length_append]
      omega

theorem LaidClauses.size : ∀ {p : Position} {clauses : List (Expression × Expression)}
    {depth i stop : Nat}, LaidClauses r m p clauses depth i stop →
    stop ≤ i + 2 * (nodesClauses clauses).length + 1
  | _, _, _, _, _, .nil _ => Nat.le_refl _
  | _, _, _, _, _, .cons test _ consequent _ _ rest _ => by
      have := test.size
      have := consequent.size
      have := rest.size
      simp only [nodesClauses, List.length_append]
      omega

end

end Laid

theorem Runs.size {r : Resolution} {m : Method} {e : Expression} (runs : Runs r m e) :
    m.chunk.code.size ≤ 2 * e.nodes.length := by
  obtain ⟨stop, p, laid, _, size⟩ := runs
  have := laid.size
  omega

theorem definition_part {forms : List Expression} {d : Definition} (listed : d ∈ definitions forms) :
    d.name ∈ textsAll forms ∧ d.body.nodes.length < (nodesAll forms).length := by
  induction forms with
  | nil => cases listed
  | cons e rest ih =>
      rw [textsAll, List.mem_append, nodesAll, List.length_append]
      have later (listed : d ∈ definitions rest) : (d.name ∈ e.texts ∨ d.name ∈ textsAll rest) ∧
          d.body.nodes.length < e.nodes.length + (nodesAll rest).length :=
        ⟨.inr (ih listed).1, Nat.lt_of_lt_of_le (ih listed).2 (Nat.le_add_left _ _)⟩
      cases defined : e.definition? with
      | none => exact later (definitions_of_none defined rest ▸ listed)
      | some first =>
          rw [definitions_of_some defined] at listed
          rcases List.mem_cons.mp listed with rfl | listed
          · rw [definition?_eq_some defined]
            refine ⟨.inl (.head _), ?_⟩
            simp only [nodes, List.length_cons]
            omega
          · exact later listed

theorem generate_ok {r : Resolution} {name : String} {forms : List Expression} {p : Position}
    {unit : CompiledUnit} {Q : String → Prop} (named : r.Named Q) (texts : ∀ t ∈ textsAll forms, Q t)
    (generated : generate r name (.block forms p) = .ok unit) :
    unit.name = name ∧ unit.constants.Holds Q := by
  obtain ⟨s, visited, generated⟩ := bind_ok.mp generated
  obtain ⟨entry, _, generated⟩ := bind_ok.mp generated
  obtain ⟨methods, _, done⟩ := bind_ok.mp generated
  cases done
  have empty : ConstantPool.empty.Holds Q := ⟨Nat.zero_le _, by simp [ConstantPool.empty]⟩
  have grown := Generator.visit_grown named (.block forms p) texts visited
  exact ⟨rfl, (grown.tidy (Generator.State.tidy_new empty _ _ _)).pool⟩

theorem Chunk.Fits.of_size {chunk : Chunk} {text : String} {nodes : Nat} (short : text.length < 2 ^ 30)
    (name : chunk.name.length ≤ text.length ∨ chunk.name = entryName) (size : chunk.code.size ≤ 2 * nodes)
    (few : nodes ≤ text.length + 2) (placed : chunk.At (Located text)) : chunk.Fits := by
  constructor
  case name =>
    rcases name with bound | main
    · have bytes := utf8ByteSize_le chunk.name
      simp only [UInt32.size]
      omega
    · rw [main]
      decide
  case code =>
    simp only [UInt32.size]
    omega
  case offsets =>
    intro i member p own
    obtain ⟨q, same, located⟩ := placed i member
    cases own.symm.trans same
    have inside := located.within.1
    rw [String.length_toList] at inside
    simp only [UInt32.size]
    omega

theorem compile_fits {name text : String} {unit : CompiledUnit} (short_name : name.utf8ByteSize < UInt32.size)
    (short : text.length < 2 ^ 30) (compiled : compile name text = .ok unit) : unit.Fits := by
  obtain ⟨forms, p, r, parsed, resolved, generated, implements⟩ := compile_implements compiled
  obtain ⟨entry, methods⟩ := (compile_located name text).of_ok compiled
  obtain ⟨few, texts⟩ := parse_sizes parsed
  obtain ⟨same, holds⟩ := generate_ok (Resolution.resolve_named texts resolved) texts generated
  constructor
  case name => exact same ▸ short_name
  case constants => exact Nat.lt_of_le_of_lt holds.size (by decide)
  case data =>
    intro d member
    cases d with
    | str s =>
        have bytes := utf8ByteSize_le s
        have bound := holds.texts s member
        simp only [Datum.Fits, UInt32.size]
        omega
    | _ => trivial
  case methods =>
    obtain ⟨_, _, program, distinct⟩ := parse_block parsed
    cases program
    have functions := (Resolution.resolve_covers distinct resolved).size
    exact Nat.lt_of_le_of_lt (implements.linked.size ▸ functions) (by decide)
  case bodies =>
    intro chunk member
    obtain ⟨d, listed, body⟩ := implements.linked.of_mem member
    obtain ⟨own, fewer⟩ := definition_part listed
    exact .of_size short (.inl (body.name ▸ texts _ own)) body.runs.size (by omega) (methods chunk member)
  case entry =>
    have size := implements.entry.size
    exact .of_size short (.inr implements.name) size (by simp only [nodes, List.length_cons]; omega) entry

end LispMachine
