import LispMachine.Proofs.Environment
import LispMachine.Proofs.Resolution.Functions

set_option autoImplicit false

namespace LispMachine.Resolution

open Expression

def Fits (r : Resolution) : Binding → Prop
  | .slot index => index.toNat < Environment.lastSlot
  | .global _ => True
  | .function index => index.toNat < r.functions.size

def Takes (r : Resolution) (argc : Nat) : Callee → Prop
  | .builtin builtin => builtin.arity = argc
  | .function index => ∃ signature, r.functions[index.toNat]? = some signature ∧
      signature.arity.toNat = argc

def CalleeEntry (r : Resolution) (id argc : Nat) : Prop :=
  ∃ callee, r.callees[id]? = some callee ∧ r.Takes argc callee

inductive Covers (r : Resolution) : Expression → Prop
  | constant {value p} : Covers r (.constant value p)
  | symbol {name p b} : r.bindings[p.offset]? = some b → r.Fits b → Covers r (.symbol name p)
  | define {name value p b} : Covers r value → r.bindings[p.offset]? = some b →
      b.Within 0 Environment.lastSlot → Covers r (.define name value p)
  | bind {name bound body p index} : Covers r bound → r.bindings[p.offset]? = some (.slot index) →
      index.toNat < Environment.lastSlot → Covers r body → Covers r (.bind name bound body p)
  | branch {condition yes no p} : Covers r condition → Covers r yes → Covers r no →
      Covers r (.branch condition yes no p)
  | block {body p} : (∀ e ∈ body, Covers r e) → Covers r (.block body p)
  | cond {clauses p} : (∀ clause ∈ clauses, Covers r clause.1) →
      (∀ clause ∈ clauses, Covers r clause.2) → Covers r (.cond clauses p)
  | call {name args p} : r.CalleeEntry p.offset args.length → (∀ e ∈ args, Covers r e) →
      Covers r (.call name args p)
  | compose {first stages p} : Covers r first → (∀ stage ∈ stages, r.CalleeEntry stage.id 1) →
      Covers r (.compose first stages p)

theorem fits_of_within {r : Resolution} {b : Binding} (within : b.Within 0 Environment.lastSlot) :
    r.Fits b := by
  cases b with
  | slot index => exact within.2
  | global name => trivial
  | function index => exact within.elim

structure Knows (r : Resolution) (table : Table) (defs : List Definition) : Prop where
  lists : table.Lists defs
  functions : r.functions = table.signatures

variable {r : Resolution} {table : Table} {defs : List Definition}

theorem Knows.getElem? (known : r.Knows table defs) (index : Nat) :
    r.functions[index]? = (defs[index]?).map (·.signature) := by
  rw [known.functions, ← Array.getElem?_toList, known.lists.signatures, List.getElem?_map]

theorem resolveName_fits (known : r.Knows table defs) {env : Environment} (sound : env.Sound)
    {name : String} {b : Binding} (resolved : resolveName table env name = some b) : r.Fits b := by
  unfold resolveName at resolved
  split at resolved
  next found =>
    cases resolved
    exact fits_of_within (sound.lookup found)
  next =>
    obtain ⟨index, found, rfl⟩ := Option.map_eq_some_iff.mp resolved
    obtain ⟨d, listed, _⟩ := known.lists.index name index found
    have entry := known.getElem? index.toNat
    rw [listed] at entry
    exact (Array.getElem?_eq_some_iff.mp entry).1

theorem resolveCallee_takes (known : r.Knows table defs) {env : Environment} {name : String}
    {argc : Nat} {p : Position} {callee : Callee}
    (resolved : resolveCallee table env name argc p = .ok callee) :
    r.Takes argc callee := by
  have arity {expected : Nat} {target : Callee}
      (same : expectArity name expected argc p target = .ok callee) :
      argc = expected ∧ callee = target := by
    unfold expectArity at same
    split at same <;> cases same
    exact ⟨by assumption, rfl⟩
  unfold resolveCallee at resolved
  split at resolved
  next builtin found =>
    obtain ⟨rfl, rfl⟩ := arity resolved
    rfl
  next =>
    split at resolved
    next index found =>
      obtain ⟨d, listed, _⟩ := known.lists.index name index found
      have entry := known.getElem? index.toNat
      rw [listed] at entry
      obtain ⟨same, rfl⟩ := arity resolved
      refine ⟨_, entry, ?_⟩
      rw [same, ← known.functions, entry]
      rfl
    next => split at resolved <;> cases resolved

theorem CalleeAt.entry {env : Environment} {name : String} {argc : Nat} {p : Position}
    (resolved : CalleeAt r table env name argc p) (known : r.Knows table defs) :
    r.CalleeEntry p.offset argc := by
  obtain ⟨callee, found, entry⟩ := resolved
  exact ⟨callee, entry, resolveCallee_takes known found⟩

mutual

theorem Resolved.covers {e : Expression} {env after : Environment} (resolved : Resolved r table e env after)
    (known : r.Knows table defs) (sound : env.Sound) : Covers r e ∧ after.Sound := by
  cases resolved with
  | constant => exact ⟨.constant, sound⟩
  | symbol found entry => exact ⟨.symbol entry (resolveName_fits known sound found), sound⟩
  | define value defined entry =>
      obtain ⟨covered, sound⟩ := value.covers known sound
      exact ⟨.define covered entry (Environment.define_within sound defined), sound.define defined⟩
  | bind bound declared entry body =>
      obtain ⟨covered, sound⟩ := bound.covers known sound
      have slot := Environment.declare_within (sound.push .block) declared
      obtain ⟨inside, sound⟩ := body.covers known ((sound.push .block).declare declared)
      exact ⟨.bind covered entry slot inside, sound.pop⟩
  | branch condition yes no =>
      obtain ⟨tested, sound⟩ := condition.covers known sound
      obtain ⟨chosen, sound⟩ := yes.covers known sound
      obtain ⟨other, sound⟩ := no.covers known sound
      exact ⟨.branch tested chosen other, sound⟩
  | block body =>
      obtain ⟨covered, sound⟩ := body.covers known (sound.push .block)
      exact ⟨.block covered, sound.pop⟩
  | cond clauses =>
      obtain ⟨tests, consequents, sound⟩ := clauses.covers known sound
      exact ⟨.cond tests consequents, sound⟩
  | call callee args =>
      obtain ⟨covered, sound⟩ := args.covers known sound
      exact ⟨.call (callee.entry known) covered, sound⟩
  | compose first stages =>
      obtain ⟨covered, sound⟩ := first.covers known sound
      exact ⟨.compose covered fun stage member => (stages stage member).entry known, sound⟩

theorem ResolvedAll.covers {es : List Expression} {env after : Environment}
    (resolved : ResolvedAll r table es env after) (known : r.Knows table defs) (sound : env.Sound) :
    (∀ e ∈ es, Covers r e) ∧ after.Sound := by
  cases resolved with
  | nil => exact ⟨by simp, sound⟩
  | cons head tail =>
      obtain ⟨covered, sound⟩ := head.covers known sound
      obtain ⟨others, sound⟩ := tail.covers known sound
      exact ⟨List.forall_mem_cons.mpr ⟨covered, others⟩, sound⟩

theorem ResolvedClauses.covers {clauses : List (Expression × Expression)} {env after : Environment}
    (resolved : ResolvedClauses r table clauses env after) (known : r.Knows table defs)
    (sound : env.Sound) :
    (∀ clause ∈ clauses, Covers r clause.1) ∧ (∀ clause ∈ clauses, Covers r clause.2) ∧
      after.Sound := by
  cases resolved with
  | nil => exact ⟨by simp, by simp, sound⟩
  | cons test consequent rest =>
      obtain ⟨tested, sound⟩ := test.covers known sound
      obtain ⟨chosen, inside⟩ := consequent.covers known (sound.push .block)
      obtain ⟨tests, consequents, sound⟩ := rest.covers known inside.pop
      exact ⟨List.forall_mem_cons.mpr ⟨tested, tests⟩, List.forall_mem_cons.mpr ⟨chosen, consequents⟩,
        sound⟩

end

theorem Declared.sound {names : List String} {env after : Environment} (declared : Declared names env after)
    (sound : env.Sound) : after.Sound := by
  induction declared with
  | nil => exact sound
  | cons first _ ih => exact ih (sound.declare first)

structure CoversProgram (r : Resolution) (forms : List Expression) : Prop where
  plain : ∀ e ∈ forms, e.definition? = none → Covers r e
  bodies : ∀ d ∈ definitions forms, Covers r d.body
  functions : r.functions.toList = (definitions forms).map Definition.signature
  size : (definitions forms).length ≤ Table.limit
  arity : ∀ d ∈ definitions forms, d.params.length ≤ maxArity
  numbers : ∀ (k : Nat) (d : Definition), (definitions forms)[k]? = some d →
    r.bindings[d.id]? = some (.function (UInt16.ofNat k))

theorem ResolvedForms.covers {forms : List Expression} {env after : Environment}
    (resolved : ResolvedForms r table forms env after) (known : r.Knows table defs)
    (sound : env.Sound) :
    (∀ e ∈ forms, e.definition? = none → Covers r e) ∧
      ∀ d ∈ definitions forms, Covers r d.body ∧ r.bindings[d.id]? = (table.nodes[d.id]?).map .function := by
  induction resolved with
  | nil => exact ⟨by simp, by simp [definitions]⟩
  | @function name params body p rest _ _ _ _ _ numbered entry names body _ ih =>
      obtain ⟨covered, inside⟩ := body.covers known (names.sound (sound.push .function))
      obtain ⟨forms, bodies⟩ := ih inside.pop
      rw [definitions_of_some (d := ⟨name, params, _, p⟩) rfl]
      refine ⟨List.forall_mem_cons.mpr ⟨fun plain => ?_, forms⟩,
        List.forall_mem_cons.mpr ⟨⟨covered, ?_⟩, bodies⟩⟩
      · cases plain
      · simp only [Definition.id, entry, numbered, Option.map_some]
  | @form e rest _ _ _ head _ ih =>
      obtain ⟨covered, sound⟩ := head.covers known sound
      obtain ⟨forms, bodies⟩ := ih sound
      rw [definitions_of_none (by cases head <;> rfl)]
      exact ⟨List.forall_mem_cons.mpr ⟨fun _ => covered, forms⟩, bodies⟩

theorem resolve_covers {forms : List Expression} {p : Position} {r : Resolution}
    (distinct : (nodesAll forms).Nodup) (resolved : resolve (.block forms p) = .ok r) :
    r.CoversProgram forms := by
  obtain ⟨table, after, lists, functions, found⟩ := resolve_forms distinct resolved
  obtain ⟨plain, bodies⟩ := found.covers ⟨lists, functions⟩ Environment.sound_global
  constructor
  case plain => exact plain
  case bodies => exact fun d member => (bodies d member).1
  case functions => rw [functions, lists.signatures]
  case size => exact lists.size
  case arity => exact lists.arity
  case numbers =>
    intro k d at_k
    rw [(bodies d (List.mem_of_getElem? at_k)).2, lists.number (nodup_definitions distinct) at_k]
    rfl

end LispMachine.Resolution
