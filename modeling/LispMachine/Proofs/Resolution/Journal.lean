import LispMachine.Resolution
import LispMachine.Proofs.Expression.Parts

set_option autoImplicit false

namespace LispMachine

namespace Resolution

inductive Referent
  | binding (binding : Binding)
  | callee (callee : Callee)

structure Entry where
  node : Node
  referent : Referent

def Entry.id (entry : Entry) : Nat := entry.node.id

def State.enter (s : State) (entry : Entry) : State :=
  match entry.referent with
  | .binding binding => s.bind entry.id binding
  | .callee callee => s.target entry.id callee

def journalStages (table : Table) : List Stage → State → Except Diagnostic (State × List Entry)
  | [], s => return (s, [])
  | stage :: rest, s => do
      let callee ← resolveCallee table s.env stage.callee 1 stage.position
      let entry : Entry := ⟨.stage stage, .callee callee⟩
      let (s, others) ← journalStages table rest (s.enter entry)
      return (s, entry :: others)

mutual

def journal (table : Table) : Expression → State → Except Diagnostic (State × List Entry)
  | .constant _ _, s => return (s, [])
  | .symbol name p, s =>
      match resolveName table s.env name with
      | some binding =>
          let entry : Entry := ⟨.expression (.symbol name p), .binding binding⟩
          return (s.enter entry, [entry])
      | none => .error ⟨.unresolved name, p⟩
  | .define name value p, s => do
      let (s, inner) ← journal table value s
      let (binding, s) ← s.define name p
      let entry : Entry := ⟨.expression (.define name value p), .binding binding⟩
      return (s.enter entry, inner ++ [entry])
  | .function name params body p, s =>
      match table.nodes[p.offset]? with
      | none => Diagnostic.syntactic .nestedFunction p
      | some index => do
          let entry : Entry := ⟨.expression (.function name params body p), .binding (.function index)⟩
          let s ← ((s.enter entry).push .function).declareAll p params
          let (s, inner) ← journal table body s
          return (s.pop, entry :: inner)
  | .bind name bound body p, s => do
      let (s, outer) ← journal table bound s
      let (index, s) ← (s.push .block).declare name p
      let entry : Entry := ⟨.expression (.bind name bound body p), .binding (.slot index)⟩
      let (s, inner) ← journal table body (s.enter entry)
      return (s.pop, outer ++ entry :: inner)
  | .branch condition yes no _, s => do
      let (s, first) ← journal table condition s
      let (s, second) ← journal table yes s
      let (s, third) ← journal table no s
      return (s, first ++ (second ++ third))
  | .block body _, s => do
      let (s, inner) ← journalAll table body (s.push .block)
      return (s.pop, inner)
  | .cond clauses _, s => journalClauses table clauses s
  | .call name args p, s => do
      let callee ← resolveCallee table s.env name args.length p
      let entry : Entry := ⟨.expression (.call name args p), .callee callee⟩
      let (s, inner) ← journalAll table args (s.enter entry)
      return (s, entry :: inner)
  | .compose first stages _, s => do
      let (s, inner) ← journal table first s
      let (s, others) ← journalStages table stages s
      return (s, inner ++ others)

def journalAll (table : Table) : List Expression → State → Except Diagnostic (State × List Entry)
  | [], s => return (s, [])
  | e :: rest, s => do
      let (s, first) ← journal table e s
      let (s, others) ← journalAll table rest s
      return (s, first ++ others)

def journalClauses (table : Table) :
    List (Expression × Expression) → State → Except Diagnostic (State × List Entry)
  | [], s => return (s, [])
  | (test, consequent) :: rest, s => do
      let (s, first) ← journal table test s
      let (s, second) ← journal table consequent (s.push .block)
      let (s, others) ← journalClauses table rest s.pop
      return (s, first ++ (second ++ others))

end

abbrev Logs (x : Except Diagnostic (State × List Entry)) (y : Except Diagnostic State) : Prop :=
  Prod.fst <$> x = y

namespace Logs

variable {α : Type} {x : Except Diagnostic (State × List Entry)} {y : Except Diagnostic State}

theorem bind {f : State × List Entry → Except Diagnostic (State × List Entry)}
    {g : State → Except Diagnostic State} (first : Logs x y)
    (next : ∀ s entries, Logs (f (s, entries)) (g s)) : Logs (x >>= f) (y >>= g) := by
  rw [Logs, ← first, map_bind, bind_map_left]
  exact bind_congr fun done => next done.1 done.2

theorem after {z : Except Diagnostic α} {f : α → Except Diagnostic (State × List Entry)}
    {g : α → Except Diagnostic State} (next : ∀ a, Logs (f a) (g a)) : Logs (z >>= f) (z >>= g) := by
  rw [Logs, map_bind]
  exact bind_congr next

theorem relog {f : State × List Entry → List Entry} (logs : Logs x y) :
    Logs (x >>= fun done => return (done.1, f done)) y := by
  rw [Logs, map_bind, ← logs]
  simp

end Logs

variable {table : Table}

theorem journalStages_logs (stages : List Stage) (s : State) :
    Logs (journalStages table stages s) (resolveStages table stages s) := by
  induction stages generalizing s with
  | nil => rfl
  | cons stage rest ih => exact .after fun callee => (ih _).relog

mutual

-- Each entry is made where `visit` calls `bind` or `target`, with the same id and the same referent.
theorem journal_logs (e : Expression) (s : State) : Logs (journal table e s) (visit table e s) := by
  cases e with
  | constant => rfl
  | symbol name p =>
      unfold journal visit
      cases resolveName table s.env name <;> rfl
  | define name value p => exact (journal_logs value s).bind fun s₁ _ => .after fun _ => rfl
  | function name params body p =>
      unfold journal visit
      cases table.nodes[p.offset]? with
      | none => rfl
      | some index => exact .after fun s₁ => (journal_logs body s₁).bind fun _ _ => rfl
  | bind name bound body p =>
      exact (journal_logs bound s).bind fun s₁ _ =>
        .after fun _ => (journal_logs body _).bind fun _ _ => rfl
  | branch condition yes no p =>
      exact (journal_logs condition s).bind fun s₁ _ =>
        (journal_logs yes s₁).bind fun s₂ _ => (journal_logs no s₂).relog
  | block body p => exact (journalAll_logs body _).bind fun _ _ => rfl
  | cond clauses p => exact journalClauses_logs clauses s
  | call name args p => exact .after fun callee => (journalAll_logs args _).relog
  | compose first stages p =>
      exact (journal_logs first s).bind fun s₁ _ => (journalStages_logs stages s₁).relog

theorem journalAll_logs (es : List Expression) (s : State) :
    Logs (journalAll table es s) (visitAll table es s) := by
  cases es with
  | nil => rfl
  | cons e rest => exact (journal_logs e s).bind fun s₁ _ => (journalAll_logs rest s₁).relog

theorem journalClauses_logs (clauses : List (Expression × Expression)) (s : State) :
    Logs (journalClauses table clauses s) (visitClauses table clauses s) := by
  cases clauses with
  | nil => rfl
  | cons clause rest =>
      obtain ⟨test, consequent⟩ := clause
      exact (journal_logs test s).bind fun s₁ _ =>
        (journal_logs consequent _).bind fun s₂ _ => (journalClauses_logs rest _).relog

end

end Resolution

def resolveJournal (program : Expression) : Except Diagnostic (Resolution × List Resolution.Entry) := do
  let table ← Resolution.Table.ofForms program.topLevel
  let (s, entries) ← Resolution.journalAll table program.topLevel .initial
  return (⟨s.bindings, s.callees, table.signatures⟩, entries)

theorem fst_resolveJournal (program : Expression) :
    Prod.fst <$> resolveJournal program = resolve program := by
  simp only [resolveJournal, resolve, map_bind, ← Resolution.journalAll_logs, bind_map_left]
  rfl

end LispMachine
