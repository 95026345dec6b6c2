import LispMachine.Proofs.Compiler
import LispMachine.Proofs.Machine.Calls
import LispMachine.Proofs.Scoping.Bindings

set_option autoImplicit false

namespace LispMachine

open Expression

/-- Whatever stores a global among the instructions from `i` up to `stop` is code of a definition that stands
among the sites, of a name that the resolution holds as global. -/
def StoresFrom (r : Resolution) (m : Method) (among : List Site) (i stop : Nat) : Prop :=
  ∀ (k : Nat) (index : UInt16) (p : Option Position), i ≤ k → k < stop →
    m.chunk.code[k]? = some ⟨.storeGlobal index, p⟩ →
    ∃ name value q s g, ⟨.define name value q, s⟩ ∈ among ∧ p = some q ∧
      r.bindings[q.offset]? = some (.global g) ∧ m.pool.get? index = some (.str g)

section Laid

variable {r : Resolution} {m : Method} {among : List Site} {depth i j stop : Nat} {p : Position}

namespace StoresFrom

theorem none : StoresFrom r m among i i := fun k _ _ low high => by omega

theorem append (first : StoresFrom r m among i j) (second : StoresFrom r m among j stop) :
    StoresFrom r m among i stop := by
  intro k index p low high
  by_cases before : k < j
  · exact first k index p low before
  · exact second k index p (Nat.le_of_not_lt before) high

theorem single {op : Opcode} (placed : Placed m depth i op p) (plain : ∀ index, op ≠ .storeGlobal index) :
    StoresFrom r m among i (i + 1) := by
  intro k index p low high found
  obtain rfl : k = i := by omega
  cases placed.code.symm.trans found
  exact absurd rfl (plain index)

theorem store {name : String} {value : Expression} {s : Scopes} {b : Binding} {op : Opcode}
    (listed : ⟨.define name value p, s⟩ ∈ among) (entry : r.bindings[p.offset]? = some b)
    (stores : Stores m.pool b op) (placed : Placed m depth i op p) : StoresFrom r m among i (i + 1) := by
  cases stores with
  | slot => exact .single placed nofun
  | @global g index named =>
      intro k index' p' low high found
      obtain rfl : k = i := by omega
      cases placed.code.symm.trans found
      exact ⟨name, value, p, s, g, listed, rfl, entry, named⟩

end StoresFrom

theorem Called.stores {id argc : Nat} {callee : Callee} (called : Called r m depth i id argc p callee) :
    StoresFrom r m among i (i + 1) :=
  .single called.placed (by cases callee <;> nofun)

theorem LaidStages.stores {stages : List Stage} (laid : LaidStages r m stages depth i stop) :
    StoresFrom r m among i stop := by
  induction laid with
  | nil => exact .none
  | cons called _ ih => exact called.stores.append ih

mutual

theorem Laid.stores {e : Expression} {depth i stop : Nat} (laid : Laid r m e depth i stop) {s : Scopes}
    (listed : e.sites s ⊆ among) : StoresFrom r m among i stop := by
  cases laid with
  | constant pushes placed => exact .single placed (by cases pushes <;> nofun)
  | symbol _ _ loads placed => exact .single placed (by cases loads <;> nofun)
  | define value dup entry stores store =>
      rw [sites, List.cons_subset] at listed
      obtain ⟨own, listed⟩ := listed
      exact ((value.stores listed).append (.single dup nofun)).append (.store own entry stores store)
  | function _ _ placed => exact .single placed nofun
  | bind _ bound store body =>
      rw [sites, List.cons_subset, List.append_subset] at listed
      obtain ⟨_, outer, inner⟩ := listed
      exact ((bound.stores outer).append (.single store nofun)).append (body.stores inner)
  | branch condition skip yes leave _ no _ =>
      rw [sites, List.cons_subset, List.append_subset, List.append_subset] at listed
      obtain ⟨_, ⟨first, second⟩, third⟩ := listed
      have chosen := (yes.stores second).append (.single leave nofun)
      exact (((condition.stores first).append (.single skip nofun)).append chosen).append (no.stores third)
  | block body =>
      rw [sites, List.cons_subset] at listed
      exact body.stores listed.2
  | cond clauses =>
      rw [sites, List.cons_subset] at listed
      exact clauses.stores listed.2
  | call args called =>
      rw [sites, List.cons_subset] at listed
      exact (args.stores listed.2).append called.stores
  | compose first stages =>
      rw [sites, List.cons_subset] at listed
      exact (first.stores listed.2).append stages.stores

theorem LaidArguments.stores {es : List Expression} {depth i stop : Nat}
    (laid : LaidArguments r m es depth i stop) {s : Scopes} (listed : sitesAll es s ⊆ among) :
    StoresFrom r m among i stop := by
  cases laid with
  | nil => exact .none
  | cons first rest =>
      rw [sitesAll, List.append_subset] at listed
      exact (first.stores listed.1).append (rest.stores listed.2)

theorem LaidSequence.stores {p : Position} {es : List Expression} {depth i stop : Nat}
    (laid : LaidSequence r m p es depth i stop) {s : Scopes} (listed : sitesAll es s ⊆ among) :
    StoresFrom r m among i stop := by
  cases laid with
  | nil placed => exact .single placed nofun
  | cons first rest =>
      rw [sitesAll, List.append_subset] at listed
      exact (first.stores listed.1).append (rest.stores listed.2)

theorem LaidFollowing.stores {es : List Expression} {depth i stop : Nat}
    (laid : LaidFollowing r m es depth i stop) {s : Scopes} (listed : sitesAll es s ⊆ among) :
    StoresFrom r m among i stop := by
  cases laid with
  | nil => exact .none
  | cons drop first rest =>
      rw [sitesAll, List.append_subset] at listed
      exact ((StoresFrom.single drop nofun).append (first.stores listed.1)).append (rest.stores listed.2)

theorem LaidClauses.stores {p : Position} {clauses : List (Expression × Expression)} {depth i stop : Nat}
    (laid : LaidClauses r m p clauses depth i stop) {s : Scopes} (listed : sitesClauses clauses s ⊆ among) :
    StoresFrom r m among i stop := by
  cases laid with
  | nil placed => exact .single placed nofun
  | cons test skip consequent leave _ rest _ =>
      rw [sitesClauses, List.append_subset, List.append_subset] at listed
      obtain ⟨⟨first, second⟩, third⟩ := listed
      have chosen := (consequent.stores second).append (.single leave nofun)
      exact (((test.stores first).append (.single skip nofun)).append chosen).append (rest.stores third)

end

theorem StoresFrom.whole {depth : Nat} (stores : StoresFrom r m among 0 stop) (ret : Placed m depth stop .ret p)
    (size : m.chunk.code.size = stop + 1) : StoresFrom r m among 0 m.chunk.code.size :=
  size ▸ stores.append (.single ret nofun)

end Laid

namespace Scopes

theorem locals_after_eq_nil {s : Scopes} {e : Expression} : (s.after e).locals = [] ↔ s.locals = [] :=
  locals_declareAll_eq_nil

theorem lookup_declare (s : Scopes) (name : String) :
    s.locals = [] ∧ (s.declare name).lookup name = some (.global name) ∨
      s.locals ≠ [] ∧ ∃ index, (s.declare name).lookup name = some (.slot index) := by
  obtain ⟨locals, globals⟩ := s
  cases locals with
  | nil => exact .inl ⟨rfl, by simp [declare, lookup, slot?]⟩
  | cons scope outer =>
      refine .inr ⟨List.cons_ne_nil _ _, ?_⟩
      have declared : (slot? name (declare ⟨scope :: outer, globals⟩ name).locals).isSome := by
        refine isSome_slot?.mpr ⟨_, List.mem_cons_self, ?_⟩
        split <;> simp [*]
      obtain ⟨k, found⟩ := Option.isSome_iff_exists.mp declared
      exact ⟨_, by rw [lookup, found]⟩

end Scopes

mutual

theorem Expression.sites_inside : ∀ (e : Expression) {s : Scopes}, s.locals ≠ [] →
    ∀ site ∈ e.sites s, site.scopes.locals ≠ []
  | .constant _ _, _, inside | .symbol _ _, _, inside => by
      simpa [sites] using inside
  | .define _ value _, _, inside => by
      rw [sites, List.forall_mem_cons]
      exact ⟨inside, value.sites_inside inside⟩
  | .function _ _ body _, _, inside => by
      rw [sites, List.forall_mem_cons]
      exact ⟨inside, body.sites_inside (List.cons_ne_nil _ _)⟩
  | .bind name bound body _, _, inside => by
      rw [sites, List.forall_mem_cons, List.forall_mem_append]
      refine ⟨inside, bound.sites_inside inside, body.sites_inside ?_⟩
      exact Scopes.locals_declare_eq_nil.not.mpr (List.cons_ne_nil _ _)
  | .branch condition yes no _, _, inside => by
      rw [sites, List.forall_mem_cons, List.forall_mem_append, List.forall_mem_append]
      have first := Scopes.locals_after_eq_nil (e := condition).not.mpr inside
      have second := Scopes.locals_after_eq_nil (e := yes).not.mpr first
      exact ⟨inside, ⟨condition.sites_inside inside, yes.sites_inside first⟩, no.sites_inside second⟩
  | .block body _, _, inside => by
      rw [sites, List.forall_mem_cons]
      exact ⟨inside, sitesAll_inside body (List.cons_ne_nil _ _)⟩
  | .cond clauses _, _, inside => by
      rw [sites, List.forall_mem_cons]
      exact ⟨inside, sitesClauses_inside clauses inside⟩
  | .call _ args _, _, inside => by
      rw [sites, List.forall_mem_cons]
      exact ⟨inside, sitesAll_inside args inside⟩
  | .compose first _ _, _, inside => by
      rw [sites, List.forall_mem_cons]
      exact ⟨inside, first.sites_inside inside⟩

theorem Expression.sitesAll_inside : ∀ (es : List Expression) {s : Scopes}, s.locals ≠ [] →
    ∀ site ∈ sitesAll es s, site.scopes.locals ≠ []
  | [], _, _ => nofun
  | e :: rest, _, inside => by
      rw [sitesAll, List.forall_mem_append]
      exact ⟨e.sites_inside inside, sitesAll_inside rest (Scopes.locals_after_eq_nil.not.mpr inside)⟩

theorem Expression.sitesClauses_inside : ∀ (clauses : List (Expression × Expression)) {s : Scopes},
    s.locals ≠ [] → ∀ site ∈ sitesClauses clauses s, site.scopes.locals ≠ []
  | [], _, _ => nofun
  | (test, consequent) :: rest, _, inside => by
      rw [sitesClauses, List.forall_mem_append, List.forall_mem_append]
      have later := Scopes.locals_after_eq_nil (e := test).not.mpr inside
      exact ⟨⟨test.sites_inside inside, consequent.sites_inside (List.cons_ne_nil _ _)⟩,
        sitesClauses_inside rest later⟩

end

theorem Expression.body_sites {forms : List Expression} {d : Definition} (defined : d ∈ definitions forms)
    (s : Scopes) : ∃ inner : Scopes, inner.locals ≠ [] ∧ d.body.sites inner ⊆ sitesAll forms s := by
  obtain ⟨e, listed, found⟩ := List.mem_filterMap.mp defined
  obtain rfl := definition?_eq_some found
  clear defined found
  induction forms generalizing s with
  | nil => cases listed
  | cons first rest ih =>
      rw [sitesAll]
      rcases List.mem_cons.mp listed with rfl | later
      · refine ⟨s.call d.params, List.cons_ne_nil _ _, ?_⟩
        exact List.subset_append_of_subset_left _ (List.subset_cons_self _ _)
      · obtain ⟨inner, inside, within⟩ := ih (s.after first) later
        exact ⟨inner, inside, List.subset_append_of_subset_right _ within⟩

namespace Site

variable {r : Resolution} {defs : List Definition}

theorem Recorded.outside {name g : String} {value : Expression} {p : Position} {s : Scopes}
    (recorded : Recorded r defs ⟨.define name value p, s⟩) (entry : r.bindings[p.offset]? = some (.global g)) :
    s.locals = [] ∧ g = name := by
  rcases (s.after value).lookup_declare name with ⟨outside, found⟩ | ⟨_, index, found⟩
  · have held := recorded _ found
    cases entry.symm.trans held
    exact ⟨Scopes.locals_after_eq_nil.mp outside, rfl⟩
  · have held := recorded _ found
    cases entry.symm.trans held

end Site

def Chunk.StoresOutside (chunk : Chunk) (pool : ConstantPool) (among : List Site) : Prop :=
  ∀ instruction ∈ chunk.code, ∀ index, instruction.opcode = .storeGlobal index →
    ∃ name value p s, ⟨.define name value p, s⟩ ∈ among ∧ s.locals = [] ∧
      pool.str? index = some name ∧ instruction.position = some p

theorem StoresFrom.outside {r : Resolution} {defs : List Definition} {pool : ConstantPool} {chunk : Chunk}
    {among : List Site} (recorded : ∀ site ∈ among, site.Recorded r defs)
    (stores : StoresFrom r ⟨pool, chunk⟩ among 0 chunk.code.size) : chunk.StoresOutside pool among := by
  intro instruction member index same
  obtain ⟨k, found⟩ := Array.mem_iff_getElem?.mp member
  obtain ⟨op, p⟩ := instruction
  subst same
  have inside : k < chunk.code.size := (Array.getElem?_eq_some_iff.mp found).1
  obtain ⟨name, value, q, s, g, listed, rfl, entry, named⟩ := stores k index p (Nat.zero_le _) inside found
  obtain ⟨outside, rfl⟩ := (recorded _ listed).outside entry
  exact ⟨g, value, q, s, listed, outside, Machine.Context.str?_of_get? named, rfl⟩

theorem Chunk.StoresOutside.storesNoGlobal {pool : ConstantPool} {chunk : Chunk} {among : List Site}
    (stores : chunk.StoresOutside pool among) (inside : ∀ site ∈ among, site.scopes.locals ≠ []) :
    chunk.StoresNoGlobal := by
  intro instruction member index same
  obtain ⟨name, value, p, s, listed, outside, _⟩ := stores instruction member index same
  exact inside _ listed outside

namespace CompiledUnit.Implements

variable {r : Resolution} {forms : List Expression} {p : Position} {unit : CompiledUnit}

theorem entry_storesOutside (implements : unit.Implements r forms p)
    (recorded : ∀ site ∈ sitesAll forms .top, site.Recorded r (definitions forms)) :
    unit.entry.StoresOutside unit.constants (sitesAll forms .top) := by
  obtain ⟨stop, q, laid, ret, size⟩ := implements.entry
  -- The block of the forms is the program itself and opens no scope.
  cases laid with
  | block laid => exact ((laid.stores (List.Subset.refl _)).whole ret size).outside recorded

theorem methods_storeNoGlobal (implements : unit.Implements r forms p)
    (recorded : ∀ site ∈ sitesAll forms .top, site.Recorded r (definitions forms)) :
    ∀ chunk ∈ unit.methods, chunk.StoresNoGlobal := by
  intro chunk listed
  obtain ⟨d, defined, implements⟩ := implements.linked.of_mem listed
  obtain ⟨stop, q, laid, ret, size⟩ := implements.runs
  obtain ⟨inner, inside, within⟩ := body_sites defined .top
  have stores := (laid.stores (List.Subset.refl (d.body.sites inner))).whole ret size
  exact (stores.outside fun site member => recorded site (within member)).storesNoGlobal
    (d.body.sites_inside inside)

end CompiledUnit.Implements

/-- No method of a compiled program stores a global. What its entry stores are the values of definitions that
stand outside all local scopes. So the globals are what they were before a call while it lasts and behind its
return, which alone leads back to the caller. -/
theorem calls_keep_globals {name text : String} {unit : CompiledUnit} (compiled : compile name text = .ok unit) :
    (∀ chunk ∈ unit.methods, chunk.StoresNoGlobal) ∧
    (∃ forms p, parse text = .ok (.block forms p) ∧
      unit.entry.StoresOutside unit.constants (sitesAll forms .top)) ∧
    ∀ (σ : Type) [LineSink σ] (limit : Nat) (s s₁ : Machine.State σ), Machine.During unit limit s s₁ →
      s₁.world.globals = s.world.globals ∧
      (Machine.step unit limit s₁).world.globals = s.world.globals ∧
      ∀ s₂, Machine.step unit limit s₁ = .next s₂ → s₂.callers.length ≤ s.callers.length →
        (∃ p, s₁.instruction? = some ⟨.ret, p⟩) ∧ s₂.callers = s.callers ∧
          s₂.world.globals = s.world.globals := by
  obtain ⟨forms, p, r, parsed, resolved, _, implements⟩ := compile_implements compiled
  obtain ⟨_, _, same, distinct, admitted⟩ := parse_forms parsed
  cases same
  have recorded := Resolution.resolve_recorded distinct admitted resolved
  have quiet := implements.methods_storeNoGlobal recorded
  refine ⟨quiet, ⟨forms, p, parsed, implements.entry_storesOutside recorded⟩, fun σ _ limit s s₁ during => ?_⟩
  have behind := (during.step_globals quiet).trans (during.globals quiet)
  refine ⟨during.globals quiet, behind, fun s₂ stepped closes => ?_⟩
  obtain ⟨returns, back⟩ := during.returns stepped closes
  rw [stepped] at behind
  exact ⟨returns, back, behind⟩

section Keeper

open Unfolding

def keeper : Expression :=
  .block
    [.define "a" (.constant (.datum (.long 1)) ⟨1, 8, 7⟩) ⟨1, 1, 0⟩,
      .function "f" ["x"] (.define "b" (.symbol "x" ⟨1, 30, 29⟩) ⟨1, 23, 22⟩) ⟨1, 11, 10⟩,
      .call "f" [.symbol "a" ⟨1, 37, 36⟩] ⟨1, 34, 33⟩] ⟨1, 1, 0⟩

def keeperMethod : Chunk :=
  ⟨"f", 1, 2, 2, #[⟨.loadLocal 0, some ⟨1, 30, 29⟩⟩, ⟨.dup, some ⟨1, 23, 22⟩⟩,
    ⟨.storeLocal 1, some ⟨1, 23, 22⟩⟩, ⟨.ret, some ⟨1, 23, 22⟩⟩]⟩

def keeperEntry : Chunk :=
  ⟨"<main>", 0, 0, 2, #[⟨.pushShort 1, some ⟨1, 8, 7⟩⟩, ⟨.dup, some ⟨1, 1, 0⟩⟩, ⟨.storeGlobal 0, some ⟨1, 1, 0⟩⟩,
    ⟨.pop, some ⟨1, 11, 10⟩⟩, ⟨.loadFunction 0, some ⟨1, 11, 10⟩⟩, ⟨.pop, some ⟨1, 34, 33⟩⟩,
    ⟨.loadGlobal 0, some ⟨1, 37, 36⟩⟩, ⟨.invoke 0 1, some ⟨1, 34, 33⟩⟩, ⟨.ret, some ⟨1, 1, 0⟩⟩]⟩

def keeperUnit : CompiledUnit :=
  { name := "keeper"
    constants := (ConstantPool.empty.add (.str "a")).2
    methods := #[keeperMethod]
    entry := keeperEntry }

theorem parse_keeper : parse "(def a 1) (defn f [x] (def b x)) (f a)" = .ok keeper := by
  with_unfolding_all rfl

theorem compile_keeper : compile "keeper" "(def a 1) (defn f [x] (def b x)) (f a)" = .ok keeperUnit := by
  simp [parse_keeper, keeper, keeperUnit, keeperMethod, keeperEntry]

def keeperCaller (i : Nat) (stack : List Value) : Frame := ⟨keeperEntry, i, stack, #[]⟩

def keeperWorld : World Buffer := ⟨(∅ : Std.HashMap String Value).insert "a" (.long 1), .unbounded⟩

def keeperCalling : Machine.State Buffer := ⟨keeperCaller 7 [.long 1], [], 1, keeperWorld⟩

def keeperReturning : Machine.State Buffer :=
  ⟨⟨keeperMethod, 3, [.long 1], #[.long 1, .long 1]⟩, [keeperCaller 8 []], 2, keeperWorld⟩

theorem keeper_during : Machine.During keeperUnit 9 keeperCalling keeperReturning :=
  (((Machine.During.enter rfl rfl).next rfl (by decide)).next rfl (by decide)).next rfl (by decide)

theorem keeper_keeps : compile "keeper" "(def a 1) (defn f [x] (def b x)) (f a)" = .ok keeperUnit ∧
    (∀ chunk ∈ keeperUnit.methods, chunk.StoresNoGlobal) ∧
    keeperUnit.entry.StoresOutside keeperUnit.constants (sitesAll keeper.topLevel .top) ∧
    keeperReturning.world.globals = keeperCalling.world.globals ∧
    (Machine.step keeperUnit 9 keeperReturning).world.globals = keeperCalling.world.globals := by
  obtain ⟨quiet, ⟨forms, p, parsed, outside⟩, kept⟩ := calls_keep_globals compile_keeper
  cases parse_keeper.symm.trans parsed
  obtain ⟨during, behind, _⟩ := kept Buffer 9 _ _ keeper_during
  exact ⟨compile_keeper, quiet, outside, during, behind⟩

end Keeper

end LispMachine
