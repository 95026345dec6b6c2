import LispMachine.Proofs.Evaluation
import LispMachine.Proofs.Scoping

set_option autoImplicit false

namespace LispMachine

structure Local where
  scope : Nat
  name : String
  deriving DecidableEq

structure Store where
  owner : Local
  slot : UInt16
  value : Value

structure Opened where
  number : Nat
  names : List String

/-- One evaluation of a name that is kept in a slot: what it gave, the scopes open around it, the
innermost first, and what the call had stored by then, the latest first. -/
structure Read where
  name : String
  slot : UInt16
  value : Value
  opened : List Opened
  stores : List Store

namespace Opened

def extend : List Opened → List String → List Opened
  | [], _ => []
  | scope :: rest, names => ⟨scope.number, scope.names ++ names⟩ :: rest

@[simp] theorem extend_nil (opened : List Opened) : extend opened [] = opened := by
  cases opened <;> simp [extend]

@[simp] theorem extend_extend (opened : List Opened) (names more : List String) :
    extend (extend opened names) more = extend opened (names ++ more) := by
  cases opened <;> simp [extend]

end Opened

namespace Read

def owner? (read : Read) : Option Local :=
  (read.opened.find? (read.name ∈ ·.names)).map (⟨·.number, read.name⟩)

def own? (read : Read) : Option Value :=
  (read.stores.find? (some ·.owner = read.owner?)).map Store.value

def last? (read : Read) : Option Store := read.stores.find? (·.slot = read.slot)

def leftover (read : Read) : Value := (read.last?.map Store.value).getD .nil

end Read

structure Past where
  entered : Nat
  stores : List Store
  reads : List Read

structure Trail (σ : Type) where
  activation : Activation σ
  past : Past

abbrev Tracing (σ : Type) : Type → Type := ExceptT Fault (StateM (Trail σ))

variable {σ : Type}

namespace Tracing

def lift {α : Type} (computation : Evaluation σ α) : Tracing σ α := fun t =>
  match computation t.activation with
  | (result, activation) => (result, { t with activation })

def note (change : Past → Past) : Tracing σ Unit := fun t =>
  (.ok (), { t with past := change t.past })

def enter : Tracing σ Nat := fun t =>
  (.ok t.past.entered, { t with past := ⟨t.past.entered + 1, t.past.stores, t.past.reads⟩ })

end Tracing

abbrev TracedCalls (σ : Type) : Type :=
  UInt16 → List Value → World σ → Except Fault Value × World σ × List Read

namespace Resolution

def noteRead (r : Resolution) (id : Nat) (name : String) (opened : List Opened) (v : Value)
    (past : Past) : Past :=
  match r.bindings[id]? with
  | some (.slot slot) =>
      { past with reads := ⟨name, slot, v, opened, past.stores⟩ :: past.reads }
  | _ => past

def noteStore (r : Resolution) (id : Nat) (name : String) (opened : List Opened) (v : Value)
    (past : Past) : Past :=
  match r.bindings[id]?, opened with
  | some (.slot slot), scope :: _ =>
      { past with stores := ⟨⟨scope.number, name⟩, slot, v⟩ :: past.stores }
  | _, _ => past

def traceLoad (r : Resolution) (id : Nat) (name : String) (opened : List Opened) : Tracing σ Value := do
  let v ← Tracing.lift (r.load id)
  Tracing.note (r.noteRead id name opened v)
  return v

def traceStore (r : Resolution) (id : Nat) (name : String) (opened : List Opened) (v : Value) :
    Tracing σ Unit := do
  Tracing.lift (r.store id v)
  Tracing.note (r.noteStore id name opened v)

variable [LineSink σ]

def traceApply (r : Resolution) (call : TracedCalls σ) (id : Nat) (args : List Value) (p : Position) :
    Tracing σ Value :=
  match r.callees[id]? with
  | some (.builtin b) => Tracing.lift (b.evaluate args p)
  | some (.function index) => fun t =>
      match call index args t.activation.world with
      | (result, world, reads) =>
          (result, ⟨{ t.activation with world }, { t.past with reads := reads ++ t.past.reads }⟩)
  | none => pure .nil

end Resolution

def Past.parameters : List String → List Value → Nat → List Store → List Store
  | name :: names, v :: values, slot, stores =>
      parameters names values (slot + 1) (⟨⟨0, name⟩, UInt16.ofNat slot, v⟩ :: stores)
  | _, _, _, stores => stores

def Trail.enter (params : List String) (args : List Value) (world : World σ) : Trail σ :=
  ⟨.enter args world, ⟨1, Past.parameters params args 0 [], []⟩⟩

variable [LineSink σ]

namespace Expression

def traceStages (r : Resolution) (call : TracedCalls σ) : List Stage → Value → Tracing σ Value
  | [], v => pure v
  | stage :: rest, v => do
      let v ← r.traceApply call stage.id [v] stage.position
      traceStages r call rest v

mutual

-- What a branch that is not taken declares, counts as declared behind it.
def trace (r : Resolution) (call : TracedCalls σ) : Expression → List Opened → Tracing σ Value
  | .constant value _, _ => pure value.value
  | .symbol name p, opened => r.traceLoad p.offset name opened
  | .define name value p, opened => do
      let v ← trace r call value opened
      r.traceStore p.offset name opened v
      return v
  | .function name _ _ _, _ => pure (.function name)
  | .bind name bound body p, opened => do
      let v ← trace r call bound opened
      let number ← Tracing.enter
      r.traceStore p.offset name [⟨number, [name]⟩] v
      trace r call body (⟨number, [name]⟩ :: Opened.extend opened bound.declares)
  | .branch condition yes no _, opened => do
      let v ← trace r call condition opened
      if v.isTruthy then trace r call yes (Opened.extend opened condition.declares)
      else trace r call no (Opened.extend opened (condition.declares ++ yes.declares))
  | .block body _, opened => do
      let number ← Tracing.enter
      traceSequence r call body (⟨number, []⟩ :: opened) .nil
  | .cond clauses _, opened => traceClauses r call clauses opened
  | .call _ args p, opened => do
      let values ← traceArguments r call args opened
      r.traceApply call p.offset values p
  | .compose first stages _, opened => do
      let v ← trace r call first opened
      traceStages r call stages v

def traceArguments (r : Resolution) (call : TracedCalls σ) :
    List Expression → List Opened → Tracing σ (List Value)
  | [], _ => pure []
  | e :: rest, opened => do
      let v ← trace r call e opened
      let values ← traceArguments r call rest (Opened.extend opened e.declares)
      return v :: values

def traceSequence (r : Resolution) (call : TracedCalls σ) :
    List Expression → List Opened → Value → Tracing σ Value
  | [], _, last => pure last
  | e :: rest, opened, _ => do
      let v ← trace r call e opened
      traceSequence r call rest (Opened.extend opened e.declares) v

def traceClauses (r : Resolution) (call : TracedCalls σ) :
    List (Expression × Expression) → List Opened → Tracing σ Value
  | [], _ => pure .nil
  | (test, consequent) :: rest, opened => do
      let v ← trace r call test opened
      if v.isTruthy then do
        let number ← Tracing.enter
        trace r call consequent (⟨number, []⟩ :: Opened.extend opened test.declares)
      else traceClauses r call rest (Opened.extend opened test.declares)

end

def traceInvoke (r : Resolution) (defs : List Definition) (limit : Nat) : Nat → TracedCalls σ
  | 0, _, _, world => (.error (.stackOverflow limit), world, [])
  | room + 1, index, args, world =>
      match defs[index.toNat]? with
      | some d =>
          match trace r (traceInvoke r defs limit room) d.body [⟨0, d.params⟩]
              (.enter d.params args world) with
          | (result, t) => (result, t.activation.world, t.past.reads)
      | none => (.ok .nil, world, [])

def traceProgram (r : Resolution) (limit : Nat) (program : Expression) (output : σ) :
    Except Fault Value × World σ × List Read :=
  match traceSequence r (traceInvoke r (definitions program.topLevel) limit (limit - 1))
      program.topLevel [] .nil (.enter [] [] ⟨∅, output⟩) with
  | (result, t) => (result, t.activation.world, t.past.reads)

end Expression

end LispMachine
