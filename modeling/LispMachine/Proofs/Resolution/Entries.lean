import Mathlib.Data.List.Nodup
import LispMachine.Proofs.Resolution.Journal
import LispMachine.Proofs.Resolution.Resolved
import LispMachine.Proofs.Unfolding

set_option autoImplicit false

namespace LispMachine

open Expression

namespace Resolution

namespace Entry

def Fits (entry : Entry) : Prop :=
  match entry.referent with
  | .binding _ => entry.node.isNamed
  | .callee _ => entry.node.isCall

theorem Fits.isResolved {entry : Entry} (fits : entry.Fits) : entry.node.isResolved := by
  obtain ⟨node, binding | callee⟩ := entry
  · exact Bool.or_eq_true_iff.mpr (.inl fits)
  · exact Bool.or_eq_true_iff.mpr (.inr fits)

end Entry

namespace State

def enterAll (s : State) (entries : List Entry) : State := entries.foldl enter s

def Holds (s : State) (id : Nat) : Referent → Prop
  | .binding binding => s.bindings[id]? = some binding
  | .callee callee => s.callees[id]? = some callee

variable {s s' : State} {id : Nat} {x : Referent} {entry : Entry} {entries : List Entry}

theorem Alike.refl (s : State) : s.Alike s := ⟨rfl, rfl⟩

theorem Alike.push (s : State) (kind : ScopeKind) : s.Alike (s.push kind) := ⟨rfl, rfl⟩

theorem Alike.pop (s : State) : s.Alike s.pop := ⟨rfl, rfl⟩

theorem Alike.trans {s s₁ s₂ : State} (first : s.Alike s₁) (second : s₁.Alike s₂) : s.Alike s₂ :=
  ⟨second.1.trans first.1, second.2.trans first.2⟩

theorem Alike.enter (same : s.Alike s') (entry : Entry) : (s.enter entry).Alike (s'.enter entry) := by
  obtain ⟨env, bindings, callees⟩ := s
  obtain ⟨env', bindings', callees'⟩ := s'
  obtain ⟨rfl, rfl⟩ := same
  obtain ⟨node, binding | callee⟩ := entry <;> exact ⟨rfl, rfl⟩

theorem Alike.enterAll (same : s.Alike s') (entries : List Entry) :
    (s.enterAll entries).Alike (s'.enterAll entries) := by
  induction entries generalizing s s' with
  | nil => exact same
  | cons entry rest ih => exact ih (same.enter entry)

theorem Alike.holds_iff (same : s.Alike s') : s'.Holds id x ↔ s.Holds id x := by
  cases x
  · rw [Holds, Holds, same.1]
  · rw [Holds, Holds, same.2]

theorem not_holds_initial : ¬ initial.Holds id x := by
  cases x <;> simp [Holds, initial]

theorem holds_enter (s : State) (entry : Entry) : (s.enter entry).Holds entry.id entry.referent := by
  obtain ⟨node, binding | callee⟩ := entry <;> simp [enter, bind, target, Holds]

theorem holds_enter_of_ne (different : entry.id ≠ id) : (s.enter entry).Holds id x ↔ s.Holds id x := by
  obtain ⟨node, binding | callee⟩ := entry <;> cases x <;>
    simp [enter, bind, target, Holds, Std.HashMap.getElem?_insert, different]

theorem of_holds_enter (found : (s.enter entry).Holds id x) :
    s.Holds id x ∨ entry.id = id ∧ entry.referent = x := by
  by_cases same : entry.id = id
  · subst same
    obtain ⟨node, binding | callee⟩ := entry <;> cases x <;>
      simp_all [enter, bind, target, Holds]
  · exact .inl ((holds_enter_of_ne same).mp found)

theorem holds_enterAll_of_fresh (fresh : id ∉ entries.map Entry.id) :
    (s.enterAll entries).Holds id x ↔ s.Holds id x := by
  induction entries generalizing s with
  | nil => exact Iff.rfl
  | cons entry rest ih =>
      rw [List.map_cons, List.mem_cons, not_or] at fresh
      exact (ih fresh.2).trans (holds_enter_of_ne (Ne.symm fresh.1))

theorem holds_enterAll (distinct : (entries.map Entry.id).Nodup) (made : entry ∈ entries) :
    (s.enterAll entries).Holds entry.id entry.referent := by
  induction entries generalizing s with
  | nil => cases made
  | cons first rest ih =>
      obtain ⟨fresh, distinct⟩ := List.nodup_cons.mp distinct
      rcases List.mem_cons.mp made with rfl | later
      · exact (holds_enterAll_of_fresh fresh).mpr (holds_enter s entry)
      · exact ih distinct later

theorem of_holds_enterAll (found : (s.enterAll entries).Holds id x) :
    s.Holds id x ∨ ∃ entry ∈ entries, entry.id = id ∧ entry.referent = x := by
  induction entries generalizing s with
  | nil => exact .inl found
  | cons first rest ih =>
      rcases ih found with before | ⟨entry, later, fits⟩
      · exact (of_holds_enter before).imp_right fun fits => ⟨first, .head _, fits⟩
      · exact .inr ⟨entry, .tail _ later, fits⟩

end State

structure Enters (nodes : List Node) (s s' : State) (entries : List Entry) : Prop where
  tables : (s.enterAll entries).Alike s'
  nodes : (entries.map Entry.node).Perm (nodes.filter Node.isResolved)
  fits : ∀ entry ∈ entries, entry.Fits

namespace Enters

variable {nodes more : List Node} {s s₁ s₂ : State} {entries others : List Entry}

theorem nil (s : State) : Enters [] s s [] where
  tables := .refl s
  nodes := .nil
  fits := nofun

theorem enter (s : State) (entry : Entry) (fits : entry.Fits) :
    Enters [entry.node] s (s.enter entry) [entry] where
  tables := ⟨rfl, rfl⟩
  nodes := by simp [fits.isResolved]
  fits := List.forall_mem_singleton.mpr fits

theorem trans (first : Enters nodes s s₁ entries) (second : Enters more s₁ s₂ others) :
    Enters (nodes ++ more) s s₂ (entries ++ others) where
  tables := by
    rw [State.enterAll, List.foldl_append]
    exact (first.tables.enterAll others).trans second.tables
  nodes := by
    rw [List.map_append, List.filter_append]
    exact first.nodes.append second.nodes
  fits := List.forall_mem_append.mpr ⟨first.fits, second.fits⟩

theorem within {outer outer₁ : State} (enters : Enters nodes s s₁ entries) (start : outer.Alike s)
    (stop : s₁.Alike outer₁) : Enters nodes outer outer₁ entries where
  tables := ((start.enterAll entries).trans enters.tables).trans stop
  nodes := enters.nodes
  fits := enters.fits

theorem perm (enters : Enters nodes s s₁ entries) (same : nodes.Perm more) :
    Enters more s s₁ entries where
  tables := enters.tables
  nodes := enters.nodes.trans (same.filter _)
  fits := enters.fits

theorem cons (enters : Enters nodes s s₁ entries) {node : Node} (unresolved : node.isResolved = false) :
    Enters (node :: nodes) s s₁ entries where
  tables := enters.tables
  nodes := by simpa [unresolved] using enters.nodes
  fits := enters.fits

end Enters

section Journal

variable {table : Table}

theorem journalStages_enters {stages : List Stage} {s s' : State} {entries : List Entry}
    (done : journalStages table stages s = .ok (s', entries)) :
    Enters (stages.map .stage) s s' entries := by
  induction stages generalizing s entries with
  | nil =>
      cases done
      exact .nil _
  | cons stage rest ih =>
      obtain ⟨callee, _, done⟩ := bind_ok.mp done
      obtain ⟨⟨s₁, others⟩, later, done⟩ := bind_ok.mp done
      cases done
      exact (Enters.enter s ⟨.stage stage, .callee callee⟩ rfl).trans (ih later)

mutual

-- The entries of the parts follow each other as the parts are visited. That of the node itself may come
-- before, between or behind them, so its place among the nodes is found by a permutation.
theorem journal_enters (e : Expression) {s s' : State} {entries : List Entry}
    (done : journal table e s = .ok (s', entries)) : Enters (.expression e :: e.inside) s s' entries := by
  cases e with
  | constant value p =>
      cases done
      exact (Enters.nil s).cons rfl
  | symbol name p =>
      simp only [journal] at done
      split at done <;> cases done
      next binding _ => exact .enter s ⟨.expression (.symbol name p), .binding binding⟩ rfl
  | define name value p =>
      obtain ⟨⟨s₁, inner⟩, first, done⟩ := bind_ok.mp done
      obtain ⟨⟨binding, s₂⟩, defined, done⟩ := bind_ok.mp done
      cases done
      have before := (journal_enters value first).within (.refl s) (State.define_ok defined).2
      have own := Enters.enter s₂ ⟨.expression (.define name value p), .binding binding⟩ rfl
      exact (before.trans own).perm (List.perm_append_singleton _ _)
  | function name params body p =>
      simp only [journal] at done
      split at done
      · cases done
      next index _ =>
        obtain ⟨s₁, declared, done⟩ := bind_ok.mp done
        obtain ⟨⟨s₂, inner⟩, second, done⟩ := bind_ok.mp done
        cases done
        have own := Enters.enter s
          ⟨.expression (.function name params body p), .binding (.function index)⟩ rfl
        have before := own.within (.refl s)
          ((State.Alike.push _ _).trans (State.declareAll_ok declared).2)
        exact before.trans ((journal_enters body second).within (.refl s₁) (.pop s₂))
  | bind name bound body p =>
      obtain ⟨⟨s₁, outer⟩, first, done⟩ := bind_ok.mp done
      obtain ⟨⟨index, s₂⟩, declared, done⟩ := bind_ok.mp done
      obtain ⟨⟨s₃, inner⟩, second, done⟩ := bind_ok.mp done
      cases done
      have before := (journal_enters bound first).within (.refl s)
        ((State.Alike.push _ _).trans (State.declare_ok declared).2)
      have own := Enters.enter s₂ ⟨.expression (.bind name bound body p), .binding (.slot index)⟩ rfl
      have behind := (journal_enters body second).within (.refl _) (.pop s₃)
      exact (before.trans (own.trans behind)).perm List.perm_middle
  | branch condition yes no p =>
      obtain ⟨⟨s₁, _⟩, first, done⟩ := bind_ok.mp done
      obtain ⟨⟨s₂, _⟩, second, done⟩ := bind_ok.mp done
      obtain ⟨⟨s₃, _⟩, third, done⟩ := bind_ok.mp done
      cases done
      have branches := (journal_enters yes second).trans (journal_enters no third)
      exact ((journal_enters condition first).trans branches).cons rfl
  | block body p =>
      obtain ⟨⟨s₁, inner⟩, first, done⟩ := bind_ok.mp done
      cases done
      exact ((journalAll_enters body first).within (.push s .block) (.pop s₁)).cons rfl
  | cond clauses p => exact (journalClauses_enters clauses done).cons rfl
  | call name args p =>
      obtain ⟨callee, _, done⟩ := bind_ok.mp done
      obtain ⟨⟨s₁, inner⟩, first, done⟩ := bind_ok.mp done
      cases done
      have own := Enters.enter s ⟨.expression (.call name args p), .callee callee⟩ rfl
      exact own.trans (journalAll_enters args first)
  | compose first stages p =>
      obtain ⟨⟨s₁, inner⟩, start, done⟩ := bind_ok.mp done
      obtain ⟨⟨s₂, others⟩, later, done⟩ := bind_ok.mp done
      cases done
      exact ((journal_enters first start).trans (journalStages_enters later)).cons rfl

theorem journalAll_enters (es : List Expression) {s s' : State} {entries : List Entry}
    (done : journalAll table es s = .ok (s', entries)) : Enters (insideAll es) s s' entries := by
  cases es with
  | nil =>
      cases done
      exact .nil s
  | cons e rest =>
      obtain ⟨⟨s₁, _⟩, first, done⟩ := bind_ok.mp done
      obtain ⟨⟨s₂, _⟩, later, done⟩ := bind_ok.mp done
      cases done
      exact (journal_enters e first).trans (journalAll_enters rest later)

theorem journalClauses_enters (clauses : List (Expression × Expression)) {s s' : State}
    {entries : List Entry} (done : journalClauses table clauses s = .ok (s', entries)) :
    Enters (insideClauses clauses) s s' entries := by
  cases clauses with
  | nil =>
      cases done
      exact .nil s
  | cons clause rest =>
      obtain ⟨test, consequent⟩ := clause
      obtain ⟨⟨s₁, _⟩, first, done⟩ := bind_ok.mp done
      obtain ⟨⟨s₂, _⟩, second, done⟩ := bind_ok.mp done
      obtain ⟨⟨s₃, _⟩, later, done⟩ := bind_ok.mp done
      cases done
      have chosen := (journal_enters consequent second).within (.push s₁ .block) (.pop s₂)
      exact (journal_enters test first).trans (chosen.trans (journalClauses_enters rest later))

end

end Journal

namespace Enters

variable {nodes : List Node} {s s' : State} {entries : List Entry} {node : Node}

theorem mem_nodes (enters : Enters nodes s s' entries) {entry : Entry} (made : entry ∈ entries) :
    entry.node ∈ nodes :=
  (List.mem_filter.mp (enters.nodes.mem_iff.mp (List.mem_map_of_mem made))).1

theorem nodup_ids (enters : Enters nodes s s' entries) (distinct : (nodes.map Node.id).Nodup) :
    (entries.map Entry.id).Nodup := by
  have ids : ((entries.map Entry.node).map Node.id).Nodup := by
    rw [(enters.nodes.map Node.id).nodup_iff]
    exact distinct.sublist (List.filter_sublist.map Node.id)
  rwa [List.map_map] at ids

theorem exists_entry (enters : Enters nodes s s' entries) (listed : node ∈ nodes)
    (resolved : node.isResolved) : ∃ x, ⟨node, x⟩ ∈ entries := by
  have among := enters.nodes.mem_iff.mpr (List.mem_filter.mpr ⟨listed, resolved⟩)
  obtain ⟨entry, made, rfl⟩ := List.mem_map.mp among
  exact ⟨entry.referent, made⟩

theorem exists_binding_iff (enters : Enters nodes s s' entries) (listed : node ∈ nodes) :
    (∃ binding, ⟨node, .binding binding⟩ ∈ entries) ↔ node.isNamed := by
  constructor
  · rintro ⟨binding, made⟩
    exact enters.fits _ made
  · intro named
    obtain ⟨binding | callee, made⟩ := enters.exists_entry listed (by simp [Node.isResolved, named])
    · exact ⟨binding, made⟩
    · cases (Node.isCall_eq_false named).symm.trans (enters.fits _ made)

theorem exists_callee_iff (enters : Enters nodes s s' entries) (listed : node ∈ nodes) :
    (∃ callee, ⟨node, .callee callee⟩ ∈ entries) ↔ node.isCall := by
  constructor
  · rintro ⟨callee, made⟩
    exact enters.fits _ made
  · intro called
    obtain ⟨binding | callee, made⟩ := enters.exists_entry listed (by simp [Node.isResolved, called])
    · cases (Node.isCall_eq_false (enters.fits _ made)).symm.trans called
    · exact ⟨callee, made⟩

-- The id of a node leads to its own entry, as it is the id of no other node.
theorem holds_iff (enters : Enters nodes .initial s entries) (distinct : (nodes.map Node.id).Nodup)
    (listed : node ∈ nodes) (x : Referent) : s.Holds node.id x ↔ ⟨node, x⟩ ∈ entries := by
  rw [enters.tables.holds_iff]
  constructor
  · intro found
    obtain before | ⟨entry, made, same, rfl⟩ := State.of_holds_enterAll found
    · exact (State.not_holds_initial before).elim
    · obtain rfl := List.inj_on_of_nodup_map distinct (enters.mem_nodes made) listed same
      exact made
  · intro made
    exact State.holds_enterAll (enters.nodup_ids distinct) made

end Enters

structure Faithful (r : Resolution) (nodes : List Node) (entries : List Entry) : Prop where
  once : (entries.map Entry.id).Nodup
  bindings : ∀ node ∈ nodes, ∀ binding,
    r.bindings[node.id]? = some binding ↔ ⟨node, .binding binding⟩ ∈ entries
  callees : ∀ node ∈ nodes, ∀ callee,
    r.callees[node.id]? = some callee ↔ ⟨node, .callee callee⟩ ∈ entries
  named : ∀ node ∈ nodes, (r.bindings[node.id]?).isSome ↔ node.isNamed
  called : ∀ node ∈ nodes, (r.callees[node.id]?).isSome ↔ node.isCall

theorem Enters.faithful {nodes : List Node} {s : State} {entries : List Entry}
    (enters : Enters nodes .initial s entries) (distinct : (nodes.map Node.id).Nodup)
    (functions : Array Signature) : Faithful ⟨s.bindings, s.callees, functions⟩ nodes entries := by
  constructor
  case once => exact enters.nodup_ids distinct
  case bindings => exact fun node listed binding => enters.holds_iff distinct listed (.binding binding)
  case callees => exact fun node listed callee => enters.holds_iff distinct listed (.callee callee)
  case named =>
    intro node listed
    rw [Option.isSome_iff_exists, ← enters.exists_binding_iff listed]
    exact exists_congr fun binding => enters.holds_iff distinct listed (.binding binding)
  case called =>
    intro node listed
    rw [Option.isSome_iff_exists, ← enters.exists_callee_iff listed]
    exact exists_congr fun callee => enters.holds_iff distinct listed (.callee callee)

end Resolution

/-- No two nodes inside a parsed program share an id. If it is resolved, each use and each declaration of a
name has a binding, each call and each stage has a callee, and what is found for a node is what was recorded
when that node was visited. -/
theorem nodes_keep_entries {text : String} {program : Expression} (read : parse text = .ok program) :
    (program.inside.map Node.id).Nodup ∧
      ∀ r, resolve program = .ok r →
        ∃ entries, resolveJournal program = .ok (r, entries) ∧ r.Faithful program.inside entries := by
  obtain ⟨forms, p, rfl, distinct⟩ := parse_block read
  rw [nodesAll_eq] at distinct
  refine ⟨distinct, fun r resolved => ?_⟩
  rw [← fst_resolveJournal] at resolved
  obtain ⟨⟨_, entries⟩, done, rfl⟩ := map_ok resolved
  refine ⟨entries, done, ?_⟩
  obtain ⟨table, _, done⟩ := bind_ok.mp done
  obtain ⟨⟨s, _⟩, visited, done⟩ := bind_ok.mp done
  cases done
  exact (Resolution.journalAll_enters forms visited).faithful distinct table.signatures

section Threaded

open Unfolding

def threadedBody : Expression := .define "y" (.symbol "x" ⟨1, 20, 19⟩) ⟨1, 13, 12⟩

def threadedCall : Expression := .call "f" [.constant (.datum (.long 1)) ⟨1, 34, 33⟩] ⟨1, 31, 30⟩

def threadedStages : List Stage := [⟨"f", ⟨1, 43, 42⟩⟩, ⟨"f", ⟨1, 46, 45⟩⟩]

def threadedFunction : Expression := .function "f" ["x"] threadedBody ⟨1, 1, 0⟩

def threadedBind : Expression :=
  .bind "a" threadedCall (.compose (.symbol "a" ⟨1, 41, 40⟩) threadedStages ⟨1, 37, 36⟩) ⟨1, 24, 23⟩

def threaded : Expression := .block [threadedFunction, threadedBind] ⟨1, 1, 0⟩

def threadedEntries : List Resolution.Entry :=
  [⟨.expression threadedFunction, .binding (.function 0)⟩,
    ⟨.expression (.symbol "x" ⟨1, 20, 19⟩), .binding (.slot 0)⟩,
    ⟨.expression threadedBody, .binding (.slot 1)⟩,
    ⟨.expression threadedCall, .callee (.function 0)⟩,
    ⟨.expression threadedBind, .binding (.slot 0)⟩,
    ⟨.expression (.symbol "a" ⟨1, 41, 40⟩), .binding (.slot 0)⟩,
    ⟨.stage ⟨"f", ⟨1, 43, 42⟩⟩, .callee (.function 0)⟩,
    ⟨.stage ⟨"f", ⟨1, 46, 45⟩⟩, .callee (.function 0)⟩]

theorem parse_threaded :
    parse "(defn f [x] (def y x)) (let a (f 1) (-> a f (f)))" = .ok threaded := by
  with_unfolding_all rfl

theorem journal_threaded : ∃ r, resolveJournal threaded = .ok (r, threadedEntries) := by
  simp [resolveJournal, threaded, threadedFunction, threadedBody, threadedBind, threadedCall, threadedStages,
    threadedEntries, Resolution.journalAll, Resolution.journal, Resolution.journalStages,
    Resolution.State.enter, Resolution.Entry.id, Node.id, Expression.id]

-- The program shares the place of its first form. All nodes inside it stand apart.
theorem threaded_keeps_entries :
    parse "(defn f [x] (def y x)) (let a (f 1) (-> a f (f)))" = .ok threaded ∧
    threaded.id = 0 ∧ threaded.inside.map Node.id = [0, 12, 19, 23, 30, 33, 36, 40, 42, 45] ∧
    (threaded.inside.map Node.id).Nodup ∧
    ∃ r, resolve threaded = .ok r ∧ resolveJournal threaded = .ok (r, threadedEntries) ∧
      r.Faithful threaded.inside threadedEntries ∧
      r.bindings[0]? = some (.function 0) ∧ r.bindings[12]? = some (.slot 1) ∧
      r.callees[30]? = some (.function 0) ∧ r.bindings[36]? = none ∧
      r.callees[42]? = some (.function 0) ∧ r.callees[45]? = some (.function 0) := by
  obtain ⟨distinct, kept⟩ := nodes_keep_entries parse_threaded
  obtain ⟨r, done⟩ := journal_threaded
  have resolved : resolve threaded = .ok r := by
    rw [← fst_resolveJournal, done]
    rfl
  obtain ⟨entries, same, faithful⟩ := kept r resolved
  cases done.symm.trans same
  have bound {i k : Nat} {node : Node} {binding : Binding} (listed : threaded.inside[i]? = some node)
      (made : threadedEntries[k]? = some ⟨node, .binding binding⟩) : r.bindings[node.id]? = some binding :=
    (faithful.bindings node (List.mem_of_getElem? listed) binding).mpr (List.mem_of_getElem? made)
  have called {i k : Nat} {node : Node} {callee : Callee} (listed : threaded.inside[i]? = some node)
      (made : threadedEntries[k]? = some ⟨node, .callee callee⟩) : r.callees[node.id]? = some callee :=
    (faithful.callees node (List.mem_of_getElem? listed) callee).mpr (List.mem_of_getElem? made)
  have unnamed : r.bindings[36]? = none := by
    rw [← Option.not_isSome_iff_eq_none]
    exact mt (faithful.named _ (List.mem_of_getElem? (i := 6) rfl)).mp nofun
  exact ⟨parse_threaded, rfl, rfl, distinct, r, resolved, done, faithful,
    bound (i := 0) (k := 0) rfl rfl, bound (i := 1) (k := 2) rfl rfl, called (i := 4) (k := 3) rfl rfl, unnamed,
    called (i := 8) (k := 6) rfl rfl, called (i := 9) (k := 7) rfl rfl⟩

end Threaded

end LispMachine
