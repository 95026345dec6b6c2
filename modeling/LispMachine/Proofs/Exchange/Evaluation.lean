import LispMachine.Proofs.Evaluation
import LispMachine.Proofs.Exchange

set_option autoImplicit false

namespace LispMachine

open Expression
open Definition (Corresponds)
open Resolution (BoundAlike CalledAlike Parallel ParallelForm)

variable {σ : Type} {numbers : UInt16 → UInt16 → Prop} {r r' : Resolution} {call call' : Calls σ}

structure CallsAlike (numbers : UInt16 → UInt16 → Prop) (r r' : Resolution) (call call' : Calls σ) : Prop where
  names : ∀ {i j : UInt16}, numbers i j → r.functionName i = r'.functionName j
  calls : ∀ {i j : UInt16}, numbers i j → call i = call' j

section Parts

variable {id : Nat}

theorem load_alike (alike : CallsAlike numbers r r' call call') (bound : BoundAlike numbers r r' id) :
    (r.load id : Evaluation σ Value) = r'.load id := by
  obtain ⟨b, b', found, found', like⟩ := bound
  rw [Resolution.load, Resolution.load, found, found']
  cases like with
  | slot | global => rfl
  | function same => simp only [alike.names same]

theorem store_alike (bound : BoundAlike numbers r r' id) (v : Value) :
    (r.store id v : Evaluation σ Unit) = r'.store id v := by
  obtain ⟨b, b', found, found', like⟩ := bound
  rw [Resolution.store, Resolution.store, found, found']
  cases like <;> rfl

variable [LineSink σ]

theorem apply_alike (alike : CallsAlike numbers r r' call call') (called : CalledAlike numbers r r' id)
    (args : List Value) (p : Position) : r.apply call id args p = r'.apply call' id args p := by
  obtain ⟨callee, callee', found, found', like⟩ := called
  rw [Resolution.apply, Resolution.apply, found, found']
  cases like with
  | builtin => rfl
  | function same => simp only [alike.calls same]

theorem evaluateStages_alike (alike : CallsAlike numbers r r' call call') {stages : List Stage}
    (called : ∀ stage ∈ stages, CalledAlike numbers r r' stage.id) (v : Value) :
    evaluateStages r call stages v = evaluateStages r' call' stages v := by
  induction stages generalizing v with
  | nil => rfl
  | cons stage rest ih =>
      obtain ⟨own, others⟩ := List.forall_mem_cons.mp called
      rw [evaluateStages, evaluateStages, apply_alike alike own]
      simp only [ih others]

abbrev MeansSame (r r' : Resolution) (call call' : Calls σ) (e : Expression) : Prop :=
  evaluate r call e = evaluate r' call' e

theorem evaluateArguments_alike {args : List Expression} (each : ∀ e ∈ args, MeansSame r r' call call' e) :
    evaluateArguments r call args = evaluateArguments r' call' args := by
  induction args with
  | nil => rfl
  | cons e rest ih =>
      obtain ⟨own, others⟩ := List.forall_mem_cons.mp each
      rw [evaluateArguments, evaluateArguments, own, ih others]

theorem evaluateSequence_alike {body : List Expression} (each : ∀ e ∈ body, MeansSame r r' call call' e)
    (last : Value) : evaluateSequence r call body last = evaluateSequence r' call' body last := by
  induction body generalizing last with
  | nil => rfl
  | cons e rest ih =>
      obtain ⟨own, others⟩ := List.forall_mem_cons.mp each
      rw [evaluateSequence, evaluateSequence, own]
      simp only [ih others]

theorem evaluateClauses_alike {clauses : List (Expression × Expression)}
    (tests : ∀ clause ∈ clauses, MeansSame r r' call call' clause.1)
    (consequents : ∀ clause ∈ clauses, MeansSame r r' call call' clause.2) :
    evaluateClauses r call clauses = evaluateClauses r' call' clauses := by
  induction clauses with
  | nil => rfl
  | cons clause rest ih =>
      obtain ⟨test, consequent⟩ := clause
      obtain ⟨tested, tests⟩ := List.forall_mem_cons.mp tests
      obtain ⟨own, consequents⟩ := List.forall_mem_cons.mp consequents
      rw [evaluateClauses, evaluateClauses, ih tests consequents]
      simp only [tested, own]

theorem means_same (alike : CallsAlike numbers r r' call call') {e : Expression}
    (parallel : Parallel numbers r r' e) : MeansSame r r' call call' e := by
  induction parallel with
  | constant => rfl
  | symbol bound => exact load_alike alike bound
  | define _ bound ih =>
      rw [MeansSame, evaluate, evaluate, ih]
      simp only [store_alike bound]
  | @bind _ _ _ p index _ found found' _ bound body =>
      have stored : BoundAlike numbers r r' p.offset := ⟨_, _, found, found', .slot index⟩
      rw [MeansSame, evaluate, evaluate, bound, body]
      simp only [store_alike stored]
  | branch _ _ _ condition yes no =>
      rw [MeansSame, evaluate, evaluate, condition, yes, no]
  | block _ body => exact evaluateSequence_alike body .nil
  | cond _ _ tests consequents => exact evaluateClauses_alike tests consequents
  | call called _ args =>
      rw [MeansSame, evaluate, evaluate, evaluateArguments_alike args]
      simp only [apply_alike alike called]
  | compose _ called first =>
      rw [MeansSame, evaluate, evaluate, first]
      simp only [evaluateStages_alike alike called]

theorem form_means_same (alike : CallsAlike numbers r r' call call') {e : Expression}
    (parallel : ParallelForm numbers r r' e) : MeansSame r r' call call' e := by
  cases parallel with
  | function => rfl
  | plain parallel => exact means_same alike parallel

end Parts

section Programs

variable [LineSink σ] {forms forms' : List Expression}

theorem functionName_eq {defs : List Definition} (functions : r.functions.toList = defs.map Definition.signature)
    {i : UInt16} {d : Definition} (found : defs[i.toNat]? = some d) : r.functionName i = d.name := by
  rw [Resolution.functionName, ← Array.getElem?_toList, functions, List.getElem?_map, found]
  rfl

-- The induction is on the frames that are left: inside a body there is one less.
theorem invoke_alike {defs defs' : List Definition}
    (names : ∀ {i j : UInt16}, Corresponds defs defs' i j → r.functionName i = r'.functionName j)
    (bodies : ∀ d ∈ defs, Parallel (Corresponds defs defs') r r' d.body) (limit room : Nat) {i j : UInt16}
    (same : Corresponds defs defs' i j) :
    (invoke r defs limit room i : List Value → World σ → _) = invoke r' defs' limit room j := by
  induction room generalizing i j with
  | zero => rfl
  | succ room ih =>
      obtain ⟨d, found, found'⟩ := same
      have own : MeansSame r r' (invoke (σ := σ) r defs limit room) (invoke r' defs' limit room) d.body :=
        means_same ⟨names, ih⟩ (bodies d (List.mem_of_getElem? found))
      funext args world
      rw [invoke, invoke, found, found']
      simp only [own]

-- The value of a function is dropped, whatever follows it.
theorem evaluateSequence_exchange (exchanged : Exchanged forms forms') (r : Resolution) (call : Calls σ)
    (last : Value) : evaluateSequence r call forms last = evaluateSequence r call forms' last := by
  induction exchanged generalizing last with
  | here => rfl
  | later _ ih =>
      rw [evaluateSequence, evaluateSequence]
      simp only [ih]

theorem evaluateProgram_exchange (exchanged : Exchanged forms forms') (covered : r.CoversProgram forms)
    (covered' : r'.CoversProgram forms')
    (parallel : ∀ e ∈ forms, ParallelForm (Corresponds (definitions forms) (definitions forms')) r r' e)
    (p : Position) (limit : Nat) (output : σ) :
    (block forms p).evaluateProgram r limit output = (block forms' p).evaluateProgram r' limit output := by
  have names {i j : UInt16} (same : Corresponds (definitions forms) (definitions forms') i j) :
      r.functionName i = r'.functionName j := by
    obtain ⟨d, found, found'⟩ := same
    rw [functionName_eq covered.functions found, functionName_eq covered'.functions found']
  have bodies (d : Definition) (listed : d ∈ definitions forms) :
      Parallel (Corresponds (definitions forms) (definitions forms')) r r' d.body := by
    obtain ⟨e, member, defined⟩ := List.mem_filterMap.mp listed
    have own := parallel e member
    rw [definition?_eq_some defined] at own
    cases own with
    | function _ _ _ body => exact body
    | plain nested => cases nested
  have alike : CallsAlike _ r r' (invoke (σ := σ) r (definitions forms) limit (limit - 1))
      (invoke r' (definitions forms') limit (limit - 1)) :=
    ⟨names, invoke_alike names bodies limit (limit - 1)⟩
  have each (e : Expression) (member : e ∈ forms) := form_means_same alike (parallel e member)
  simp only [evaluateProgram, topLevel, evaluate]
  rw [evaluateSequence_alike each, evaluateSequence_exchange exchanged]

end Programs

end LispMachine
