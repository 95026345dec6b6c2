import LispMachine.Machine.Step
import LispMachine.Proofs.Machine.Operands
import LispMachine.Proofs.Resolution.Functions

set_option autoImplicit false

namespace LispMachine

variable {σ : Type}

structure Activation (σ : Type) where
  locals : UInt16 → Value
  world : World σ

namespace Activation

def enter (args : List Value) (world : World σ) : Activation σ :=
  ⟨fun slot => args[slot.toNat]?.getD .nil, world⟩

def store (a : Activation σ) (slot : UInt16) (v : Value) : Activation σ :=
  { a with locals := fun other => if other = slot then v else a.locals other }

end Activation

-- A computation that ends with a value or a fault; what was done before a fault stays done.
def Evaluation (σ α : Type) : Type := Activation σ → Except Fault α × Activation σ

namespace Evaluation

instance : Monad (Evaluation σ) where
  pure v := fun a => (.ok v, a)
  bind first next := fun a =>
    match first a with
    | (.ok v, a) => next v a
    | (.error fault, a) => (.error fault, a)

theorem bind_eq_ok {α β : Type} {first : Evaluation σ α} {next : α → Evaluation σ β} {a a' : Activation σ}
    {v : β} (done : (first >>= next) a = (.ok v, a')) :
    ∃ w a₁, first a = (.ok w, a₁) ∧ next w a₁ = (.ok v, a') := by
  simp only [bind] at done
  split at done
  next w a₁ found => exact ⟨w, a₁, found, done⟩
  next => cases done

def ofExcept {α : Type} (result : Except Fault α) : Evaluation σ α := fun a => (result, a)

def load (slot : UInt16) : Evaluation σ Value := fun a => (.ok (a.locals slot), a)

def store (slot : UInt16) (v : Value) : Evaluation σ Unit := fun a => (.ok (), a.store slot v)

def readGlobal (name : String) : Evaluation σ Value := fun a =>
  match a.world.globals[name]? with
  | some v => (.ok v, a)
  | none => (.error (.undefinedGlobal name), a)

def writeGlobal (name : String) (v : Value) : Evaluation σ Unit := fun a =>
  (.ok (), { a with world := ⟨a.world.globals.insert name v, a.world.output⟩ })

def printLine [LineSink σ] (text : String) : Evaluation σ Unit := fun a =>
  match LineSink.writeLine a.world.output text with
  | (output, none) => (.ok (), { a with world := ⟨a.world.globals, output⟩ })
  | (output, some reason) => (.error (.output reason), { a with world := ⟨a.world.globals, output⟩ })

def onWorld {α : Type} (change : World σ → Except Fault α × World σ) : Evaluation σ α := fun a =>
  match change a.world with
  | (result, world) => (result, { a with world })

end Evaluation

def Literal.value : Literal → Value
  | .nil => .nil
  | .bool b => .bool b
  | .datum (.long n) => .long n
  | .datum (.double d) => .double d
  | .datum (.str s) => .str s

theorem Literal.value_datum (d : Datum) : (Literal.datum d).value = .ofDatum d := by cases d <;> rfl

abbrev Calls (σ : Type) : Type := UInt16 → List Value → World σ → Except Fault Value × World σ

namespace Resolution

def functionName (r : Resolution) (index : UInt16) : String :=
  (r.functions[index.toNat]?.map Signature.name).getD ""

-- The value of a name. A program that was resolved has an entry for each of its nodes; a node
-- without one would count as `nil`.
def load (r : Resolution) (id : Nat) : Evaluation σ Value :=
  match r.bindings[id]? with
  | some (.slot index) => Evaluation.load index
  | some (.global name) => Evaluation.readGlobal name
  | some (.function index) => pure (.function (r.functionName index))
  | none => pure .nil

def store (r : Resolution) (id : Nat) (v : Value) : Evaluation σ Unit :=
  match r.bindings[id]? with
  | some (.slot index) => Evaluation.store index v
  | some (.global name) => Evaluation.writeGlobal name v
  | _ => pure ()

end Resolution

variable [LineSink σ]

def Builtin.evaluate (builtin : Builtin) (args : List Value) (p : Position) : Evaluation σ Value :=
  match builtin, args with
  | .println, [v] => do
      Evaluation.printLine v.text
      return .nil
  | builtin, args => Evaluation.ofExcept <|
      match builtin.apply args with
      | .error (.mismatch fault _) => .error (.mismatch fault (some p))
      | .error (.divisionByZero _) => .error (.divisionByZero (some p))
      | result => result

-- The machine places the same faults, but only those that have no position yet.
theorem Builtin.evaluate_of_ne {builtin : Builtin} {args : List Value} (quiet : builtin ≠ .println)
    (arity : builtin.arity = args.length) (p : Position) : (builtin.evaluate args p : Evaluation σ Value) =
      Evaluation.ofExcept ((builtin.apply args).mapError (·.atPosition (some p))) := by
  unfold Builtin.evaluate
  split
  · exact absurd rfl quiet
  next =>
    cases applied : builtin.apply args with
    | ok v => rfl
    | error fault =>
        have refused := Builtin.apply_refuses quiet arity fault applied
        cases fault with
        | mismatch fault q | divisionByZero q =>
            cases refused
            rfl
        | _ => exact refused.elim

def Resolution.apply (r : Resolution) (call : Calls σ) (id : Nat) (args : List Value) (p : Position) :
    Evaluation σ Value :=
  match r.callees[id]? with
  | some (.builtin b) => b.evaluate args p
  | some (.function index) => Evaluation.onWorld (call index args)
  | none => pure .nil

namespace Expression

def evaluateStages (r : Resolution) (call : Calls σ) : List Stage → Value → Evaluation σ Value
  | [], v => pure v
  | stage :: rest, v => do
      let v ← r.apply call stage.id [v] stage.position
      evaluateStages r call rest v

mutual

def evaluate (r : Resolution) (call : Calls σ) : Expression → Evaluation σ Value
  | .constant value _ => pure value.value
  | .symbol _ p => r.load p.offset
  | .define _ value p => do
      let v ← evaluate r call value
      r.store p.offset v
      return v
  | .function name _ _ _ => pure (.function name)
  | .bind _ bound body p => do
      let v ← evaluate r call bound
      r.store p.offset v
      evaluate r call body
  | .branch condition yes no _ => do
      let v ← evaluate r call condition
      if v.isTruthy then evaluate r call yes else evaluate r call no
  | .block body _ => evaluateSequence r call body .nil
  | .cond clauses _ => evaluateClauses r call clauses
  | .call _ args p => do
      let values ← evaluateArguments r call args
      r.apply call p.offset values p
  | .compose first stages _ => do
      let v ← evaluate r call first
      evaluateStages r call stages v

def evaluateArguments (r : Resolution) (call : Calls σ) : List Expression → Evaluation σ (List Value)
  | [] => pure []
  | e :: rest => do
      let v ← evaluate r call e
      let values ← evaluateArguments r call rest
      return v :: values

def evaluateSequence (r : Resolution) (call : Calls σ) : List Expression → Value → Evaluation σ Value
  | [], last => pure last
  | e :: rest, _ => do
      let v ← evaluate r call e
      evaluateSequence r call rest v

def evaluateClauses (r : Resolution) (call : Calls σ) :
    List (Expression × Expression) → Evaluation σ Value
  | [] => pure .nil
  | (test, consequent) :: rest => do
      let v ← evaluate r call test
      if v.isTruthy then evaluate r call consequent else evaluateClauses r call rest

end

theorem length_of_evaluateArguments {r : Resolution} {call : Calls σ} {es : List Expression}
    {a a' : Activation σ} {values : List Value}
    (done : evaluateArguments r call es a = (.ok values, a')) : values.length = es.length := by
  induction es generalizing a values with
  | nil =>
      cases done
      rfl
  | cons e rest ih =>
      obtain ⟨v, a₁, _, done⟩ := Evaluation.bind_eq_ok done
      obtain ⟨others, a₂, found, done⟩ := Evaluation.bind_eq_ok done
      cases done
      simp [ih found]

-- Run the body of a function in locals of its own. `room` is how many more frames may be open.
def invoke (r : Resolution) (defs : List Definition) (limit : Nat) : Nat → Calls σ
  | 0, _, _, world => (.error (.stackOverflow limit), world)
  | room + 1, index, args, world =>
      match defs[index.toNat]? with
      | some d =>
          match evaluate r (invoke r defs limit room) d.body (.enter args world) with
          | (result, a) => (result, a.world)
      | none => (.ok .nil, world)

-- Evaluate a program from empty globals; its forms take up one of the `limit` frames.
def evaluateProgram (r : Resolution) (limit : Nat) (program : Expression) (output : σ) :
    Except Fault Value × World σ :=
  match evaluate r (invoke r (definitions program.topLevel) limit (limit - 1)) program
      (.enter [] ⟨∅, output⟩) with
  | (result, a) => (result, a.world)

end Expression

end LispMachine
