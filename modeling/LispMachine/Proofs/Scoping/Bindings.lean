import LispMachine.Proofs.Scoping.Deciding

set_option autoImplicit false

namespace LispMachine

open Expression

def Site.Recorded (r : Resolution) (defs : List Definition) (site : Site) : Prop :=
  ∀ b, site.binding? defs = some b → r.bindings[site.expression.id]? = some b

theorem Environment.Tracks.lookup_inner {env : Environment} {s : Scopes} {name : String} {b : Binding}
    (tracks : env.Tracks s) (held : env.inner.names[name]? = some b) : s.lookup name = some b := by
  rw [← tracks.lookup]
  simp [Environment.lookup, Environment.scopes, held]

-- Names are distinct, so that a function is the first one with its name.
theorem Definition.Compatible.number?_eq {defs : List Definition} (compatible : Compatible defs)
    {d : Definition} {k : Nat} (found : defs[k]? = some d) :
    number? defs d.name = some (UInt16.ofNat k) := by
  have known : (defs.findIdx? (·.name = d.name)).isSome :=
    isSome_findIdx?.mpr ⟨d, List.mem_of_getElem? found, rfl⟩
  obtain ⟨j, first⟩ := Option.isSome_iff_exists.mp known
  obtain ⟨within, same, _⟩ := List.findIdx?_eq_some_iff_getElem.mp first
  have place : j = k := by
    apply (List.getElem?_inj (by simpa using within) compatible.distinct).mp
    rw [List.getElem?_map, List.getElem?_map, found, List.getElem?_eq_getElem within]
    simpa using same
  rw [number?, first, place]
  rfl

namespace Resolution

variable {r : Resolution} {table : Table} {defs : List Definition}

mutual

theorem Resolved.recorded (serves : table.Serves defs) {e : Expression} {env after : Environment}
    {s : Scopes} (resolved : Resolved r table e env after) (tracks : env.Tracks s) :
    after.Tracks (s.after e) ∧ ∀ site ∈ e.sites s, site.Recorded r defs := by
  cases resolved with
  | constant => exact ⟨tracks, List.forall_mem_singleton.mpr nofun⟩
  | @symbol name p _ binding found recorded =>
      refine ⟨tracks, List.forall_mem_singleton.mpr fun b meant => ?_⟩
      rw [resolveName_eq serves tracks] at found
      exact recorded.trans (found.symm.trans meant)
  | @define name value p _ inner _ binding resolved defined recorded =>
      obtain ⟨tracks, others⟩ := resolved.recorded serves tracks
      have tracks := tracks.define defined
      have held := tracks.lookup_inner (Environment.names_of_define defined)
      rw [Scopes.after_define, sites]
      refine ⟨tracks, List.forall_mem_cons.mpr ⟨fun b meant => ?_, others⟩⟩
      exact recorded.trans (held.symm.trans meant)
  | @bind name bound body p _ inner inside after index outer declared recorded resolved =>
      obtain ⟨around, first⟩ := outer.recorded serves tracks
      have tracks := around.push.declare (by simp [Scopes.enter]) declared
      have held := tracks.lookup_inner (Environment.names_of_declare declared)
      obtain ⟨tracks, second⟩ := resolved.recorded serves tracks
      refine ⟨.pop_enter (name :: body.declares) tracks, ?_⟩
      rw [sites, List.forall_mem_cons, List.forall_mem_append]
      exact ⟨fun b meant => recorded.trans (held.symm.trans meant), first, second⟩
  | branch condition yes no =>
      obtain ⟨tracks, first⟩ := condition.recorded serves tracks
      obtain ⟨tracks, second⟩ := yes.recorded serves tracks
      obtain ⟨tracks, third⟩ := no.recorded serves tracks
      rw [Scopes.after_branch, sites, List.forall_mem_cons, List.forall_mem_append,
        List.forall_mem_append]
      exact ⟨tracks, nofun, ⟨first, second⟩, third⟩
  | @block body _ _ _ resolved =>
      obtain ⟨tracks, inside⟩ := resolved.recorded serves tracks.push
      exact ⟨tracks.pop_enter _, List.forall_mem_cons.mpr ⟨nofun, inside⟩⟩
  | cond clauses =>
      obtain ⟨tracks, inside⟩ := clauses.recorded serves tracks
      exact ⟨tracks, List.forall_mem_cons.mpr ⟨nofun, inside⟩⟩
  | call _ args =>
      obtain ⟨tracks, inside⟩ := args.recorded serves tracks
      exact ⟨tracks, List.forall_mem_cons.mpr ⟨nofun, inside⟩⟩
  | compose first _ =>
      obtain ⟨tracks, inside⟩ := first.recorded serves tracks
      exact ⟨tracks, List.forall_mem_cons.mpr ⟨nofun, inside⟩⟩

theorem ResolvedAll.recorded (serves : table.Serves defs) {es : List Expression}
    {env after : Environment} {s : Scopes} (resolved : ResolvedAll r table es env after)
    (tracks : env.Tracks s) :
    after.Tracks (s.declareAll (declaresAll es)) ∧
      ∀ site ∈ sitesAll es s, site.Recorded r defs := by
  cases resolved with
  | nil => exact ⟨tracks, nofun⟩
  | cons head rest =>
      obtain ⟨tracks, first⟩ := head.recorded serves tracks
      obtain ⟨tracks, others⟩ := rest.recorded serves tracks
      rw [Scopes.after_sequence]
      exact ⟨tracks, List.forall_mem_append.mpr ⟨first, others⟩⟩

theorem ResolvedClauses.recorded (serves : table.Serves defs)
    {clauses : List (Expression × Expression)} {env after : Environment} {s : Scopes}
    (resolved : ResolvedClauses r table clauses env after) (tracks : env.Tracks s) :
    after.Tracks (s.declareAll (declaresTests clauses)) ∧
      ∀ site ∈ sitesClauses clauses s, site.Recorded r defs := by
  cases resolved with
  | nil => exact ⟨tracks, nofun⟩
  | @cons test consequent rest _ _ _ _ tested chosen others =>
      obtain ⟨tracks, first⟩ := tested.recorded serves tracks
      obtain ⟨inside, second⟩ := chosen.recorded serves tracks.push
      obtain ⟨tracks, third⟩ := others.recorded serves (inside.pop_enter _)
      rw [Scopes.after_clauses, sitesClauses, List.forall_mem_append, List.forall_mem_append]
      exact ⟨tracks, ⟨first, second⟩, third⟩

end

theorem Declared.tracks {names : List String} {env after : Environment} {s : Scopes}
    (declared : Declared names env after) (tracks : env.Tracks s) (inside : s.locals ≠ []) :
    after.Tracks (s.declareAll names) := by
  induction declared generalizing s with
  | nil => exact tracks
  | cons first _ ih => exact ih (tracks.declare inside first) (by simpa using inside)

theorem Table.Serves.number?_eq (serves : table.Serves defs) (nodes : (defs.map Definition.id).Nodup)
    {d : Definition} (listed : d ∈ defs) {index : UInt16}
    (numbered : table.nodes[d.id]? = some index) : Definition.number? defs d.name = some index := by
  obtain ⟨k, found⟩ := List.getElem?_of_mem listed
  have number := serves.lists.number nodes found
  rw [numbered, Option.some_inj] at number
  rw [number, serves.compatible.number?_eq found]

theorem ResolvedForms.recorded (serves : table.Serves defs) (nodes : (defs.map Definition.id).Nodup)
    {forms : List Expression} {env after : Environment} {s : Scopes}
    (resolved : ResolvedForms r table forms env after) (listed : ∀ d ∈ definitions forms, d ∈ defs)
    (distinct : ∀ e ∈ forms, e.Distinct) (outside : s.locals = []) (tracks : env.Tracks s) :
    ∀ site ∈ sitesAll forms s, site.Recorded r defs := by
  induction resolved generalizing s with
  | nil => exact nofun
  | @function name params body p rest env _ _ _ index numbered recorded declared resolved _ ih =>
      obtain ⟨own, distinct⟩ := List.forall_mem_cons.mp distinct
      rw [definitions_of_some rfl, List.forall_mem_cons] at listed
      have number := serves.number?_eq nodes listed.1 numbered
      have named := declared.tracks (tracks.push_function outside) (by simp [Scopes.enter])
      rw [Scopes.enter_declareAll outside own] at named
      obtain ⟨inside, sites⟩ := resolved.recorded serves named
      have others := ih listed.2 distinct outside (inside.pop_call outside _)
      refine List.forall_mem_append.mpr ⟨List.forall_mem_cons.mpr ⟨fun b meant => ?_, sites⟩, others⟩
      simp only [Site.binding?, number] at meant
      exact recorded.trans meant
  | @form e rest env inner after resolved _ ih =>
      obtain ⟨tracks, sites⟩ := resolved.recorded serves tracks
      have later := ((List.sublist_cons_self e rest).filterMap definition?).subset
      refine List.forall_mem_append.mpr ⟨sites, ih (fun d member => listed d (later member)) ?_ ?_ tracks⟩
      · exact (List.forall_mem_cons.mp distinct).2
      · exact Scopes.locals_declareAll_eq_nil.mpr outside

theorem resolve_recorded {forms : List Expression} {p : Position}
    (distinct : (nodesAll forms).Nodup) (admitted : ∀ e ∈ forms, e.Admitted 0)
    (resolved : resolve (.block forms p) = .ok r) :
    ∀ site ∈ sitesAll forms .top, site.Recorded r (definitions forms) := by
  obtain ⟨table, read, resolved⟩ := bind_ok.mp resolved
  obtain ⟨s, visited, resolved⟩ := bind_ok.mp resolved
  cases resolved
  have serves : table.Serves (definitions forms) := (ofForms_decides .empty admitted).of_ok read
  exact (visitAll_forms distinct serves.lists visited).recorded serves (nodup_definitions distinct)
    (fun d listed => listed) (fun e listed => (admitted e listed).distinct) rfl .global

end Resolution

/-- A parsed program is resolved if and only if it is well scoped. For each use and each declaration of
a name the resolution then holds what the name means there, by the innermost scope that has it. Only the
second part asks for tokens at different offsets, as those of a text are. -/
theorem resolve_iff_wellScoped {tokens : List Token} {program : Expression}
    (parsed : Parser.parseTokens tokens = .ok program) :
    ((∃ r, resolve program = .ok r) ↔ WellScoped program.topLevel) ∧
    ((tokens.map Token.offset).Nodup → ∀ r, resolve program = .ok r →
      ∀ site ∈ sitesAll program.topLevel .top, site.Recorded r (definitions program.topLevel)) := by
  obtain ⟨forms, p, rfl, offsets, admitted⟩ := parseTokens_forms parsed
  refine ⟨(Resolution.resolve_decides admitted p).ok_iff, fun distinct r resolved => ?_⟩
  exact Resolution.resolve_recorded (offsets.nodup distinct) admitted resolved

section Shadowed

def shadowed : Expression :=
  .block
    [.function "f" ["x"]
        (.block [.define "f" (.symbol "x" ⟨1, 24, 23⟩) ⟨1, 17, 16⟩, .symbol "f" ⟨1, 27, 26⟩]
          ⟨1, 13, 12⟩) ⟨1, 1, 0⟩,
      .define "x" (.constant (.datum (.long 1)) ⟨1, 38, 37⟩) ⟨1, 31, 30⟩,
      .bind "x" (.symbol "x" ⟨1, 48, 47⟩) (.symbol "x" ⟨1, 50, 49⟩) ⟨1, 41, 40⟩] ⟨1, 1, 0⟩

def hidden : Expression :=
  .block
    [.cond [(.define "a" (.constant (.datum (.long 1)) ⟨1, 14, 13⟩) ⟨1, 7, 6⟩,
        .define "b" (.constant (.datum (.long 2)) ⟨1, 24, 23⟩) ⟨1, 17, 16⟩)] ⟨1, 1, 0⟩,
      .symbol "b" ⟨1, 28, 27⟩] ⟨1, 1, 0⟩

theorem parse_shadowed :
    parse "(defn f [x] (do (def f x) f)) (def x 1) (let x x x)" = .ok shadowed := by
  with_unfolding_all rfl

theorem parse_hidden : parse "(cond (def a 1) (def b 2)) b" = .ok hidden := by
  with_unfolding_all rfl

theorem shadowed_bindings :
    (∃ r, resolve shadowed = .ok r ∧
      r.bindings[23]? = some (.slot 0) ∧ r.bindings[26]? = some (.slot 1) ∧
      r.bindings[47]? = some (.global "x") ∧ r.bindings[49]? = some (.slot 0)) ∧
    ¬ ∃ r, resolve hidden = .ok r := by
  constructor
  · obtain ⟨tokens, lexed, parsed⟩ := bind_ok.mp parse_shadowed
    obtain ⟨accepted, recorded⟩ := resolve_iff_wellScoped parsed
    obtain ⟨r, resolved⟩ := accepted.mpr (by decide)
    have held {k : Nat} {site : Site} (stands : (sitesAll shadowed.topLevel .top)[k]? = some site)
        {b : Binding} (means : site.binding? (definitions shadowed.topLevel) = some b) :
        r.bindings[site.expression.id]? = some b :=
      recorded (tokenize_distinct lexed) r resolved site (List.mem_of_getElem? stands) b means
    exact ⟨r, resolved, held (k := 3) rfl rfl, held (k := 4) rfl rfl, held (k := 8) rfl rfl,
      held (k := 9) rfl rfl⟩
  · obtain ⟨tokens, _, parsed⟩ := bind_ok.mp parse_hidden
    rw [(resolve_iff_wellScoped parsed).1]
    decide

end Shadowed

end LispMachine
