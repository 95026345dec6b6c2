import LispMachine.Proofs.Scoping.Callees

set_option autoImplicit false

namespace LispMachine

open Expression

theorem self_mem_sites (e : Expression) (s : Scopes) : ⟨e, s⟩ ∈ e.sites s := by
  cases e <;> exact List.mem_cons_self

theorem slots_of_fits {defs : List Definition} {e : Expression} {s : Scopes}
    (fits : ∀ site ∈ e.sites s, site.Fits defs) : s.slots ≤ Environment.lastSlot :=
  Nat.le_trans (s.slots_le_declareAll _) (fits _ (self_mem_sites e s)).2

namespace Resolution

@[simp] theorem State.env_bind (st : State) (id : Nat) (b : Binding) : (st.bind id b).env = st.env := rfl

variable {table : Table} {defs : List Definition} {st : State} {s : Scopes}

theorem declare_decides (tracks : st.env.Tracks s) (inside : s.locals ≠ []) (name : String)
    (p : Position) :
    Decides ((s.declare name).slots ≤ Environment.lastSlot)
      (fun declared => declared.2.env.Tracks (s.declare name)) (st.declare name p) := by
  obtain ⟨env, bindings, callees⟩ := st
  simp only [State.declare]
  split
  next index after declared =>
    have next := tracks.declare inside declared
    exact ⟨next.room, next⟩
  next declared =>
    intro room
    obtain ⟨index, after, succeeds⟩ := tracks.declarable inside room
    rw [succeeds] at declared
    cases declared

theorem define_decides (tracks : st.env.Tracks s) (name : String) (p : Position) :
    Decides ((s.declare name).slots ≤ Environment.lastSlot)
      (fun defined => defined.2.env.Tracks (s.declare name)) (st.define name p) := by
  obtain ⟨env, bindings, callees⟩ := st
  simp only [State.define]
  split
  next b after defined =>
    have next := tracks.define defined
    exact ⟨next.room, next⟩
  next defined =>
    intro room
    obtain ⟨b, after, succeeds⟩ := tracks.definable room
    rw [succeeds] at defined
    cases defined

theorem declareAll_decides (tracks : st.env.Tracks s) (inside : s.locals ≠ []) (p : Position)
    (names : List String) :
    Decides ((s.declareAll names).slots ≤ Environment.lastSlot)
      (fun st => st.env.Tracks (s.declareAll names)) (st.declareAll p names) := by
  induction names generalizing st s with
  | nil => exact ⟨tracks.room, tracks⟩
  | cons name rest ih =>
      have first := declare_decides tracks inside name p
      refine (first.bind fun declared next => ih next (by simpa using inside)).congr ?_
      exact and_iff_right_of_imp (Nat.le_trans ((s.declare name).slots_le_declareAll rest))

theorem resolveStages_decides (serves : table.Serves defs) (tracks : st.env.Tracks s)
    (stages : List Stage) :
    Decides (∀ stage ∈ stages, Definition.Callable defs stage.callee 1) (fun st => st.env.Tracks s)
      (resolveStages table stages st) := by
  induction stages generalizing st with
  | nil => exact ⟨nofun, tracks⟩
  | cons stage rest ih =>
      have first := resolveCallee_decides serves st.env stage.callee 1 stage.position
      have others (callee : Callee) : Decides (∀ stage ∈ rest, Definition.Callable defs stage.callee 1)
          (fun st => st.env.Tracks s) (resolveStages table rest (st.target stage.id callee)) := ih tracks
      refine (first.bind fun callee _ => others callee).congr ?_
      simp only [List.forall_mem_cons]

def Standing (table : Table) (s : Scopes) (e : Expression) : Prop :=
  ∀ d, e.definition? = some d → s.locals = [] ∧ (table.nodes[d.id]?).isSome

theorem standing_of_admitted {e : Expression} {depth : Nat} (admitted : e.Admitted (depth + 1)) :
    Standing table s e := by
  intro d defined
  rw [definition?_eq_some defined] at admitted
  cases admitted

theorem Standing.declareAll {e : Expression} (standing : Standing table s e) (names : List String) :
    Standing table (s.declareAll names) e := by
  intro d defined
  rw [Scopes.locals_declareAll_eq_nil]
  exact standing d defined

theorem at_site {e : Expression} {inner : List Site} {fits : Prop} {x : Except Diagnostic State}
    (decides : Decides fits (fun st => st.env.Tracks (s.after e)) x)
    (same : (s.after e).slots ≤ Environment.lastSlot →
      (fits ↔ Site.Known defs ⟨e, s⟩ ∧ ∀ site ∈ inner, site.Fits defs)) :
    Decides (∀ site ∈ ⟨e, s⟩ :: inner, site.Fits defs) (fun st => st.env.Tracks (s.after e)) x := by
  apply (decides.known fun st tracks => tracks.room).congr
  rw [List.forall_mem_cons]
  constructor
  · rintro ⟨holds, room⟩
    obtain ⟨known, others⟩ := (same room).mp holds
    exact ⟨⟨known, room⟩, others⟩
  · rintro ⟨⟨known, room⟩, others⟩
    exact ⟨(same room).mpr ⟨known, others⟩, room⟩

mutual

-- Below a form there are no functions, so only the forms of the program have to know where they stand.
theorem visit_decides (serves : table.Serves defs) (e : Expression) {depth : Nat} {st : State}
    {s : Scopes} (admitted : e.Admitted depth) (standing : Standing table s e)
    (tracks : st.env.Tracks s) :
    Decides (∀ site ∈ e.sites s, site.Fits defs) (fun st => st.env.Tracks (s.after e))
      (visit table e st) := by
  cases e with
  | constant value p => exact at_site ⟨trivial, tracks⟩ (by simp [Site.Known])
  | symbol name p =>
      have found : Decides ((s.meaning? defs name).isSome)
          (fun st => st.env.Tracks (s.after (.symbol name p))) (visit table (.symbol name p) st) := by
        rw [visit, resolveName_eq serves tracks]
        cases s.meaning? defs name with
        | some binding => exact ⟨rfl, tracks⟩
        | none => exact nofun
      exact at_site found fun _ => by simp [Site.Known, Scopes.isSome_meaning?]
  | define name value p =>
      cases admitted with
      | define _ inner =>
      have first := visit_decides serves value inner (standing_of_admitted inner) tracks
      rw [sites]
      refine at_site (first.bind fun st tracks => (define_decides tracks name p).bind
        fun defined tracks => .ok ?_) fun room => ?_
      · simpa using tracks
      · rw [Scopes.after_define] at room
        simp [Site.Known, room]
  | function name params body p =>
      cases admitted with
      | function distinct few inner =>
      obtain ⟨outside, numbered⟩ := standing _ rfl
      obtain ⟨index, found⟩ := Option.isSome_iff_exists.mp numbered
      have named : Decides ((s.call params).slots ≤ Environment.lastSlot)
          (fun st => st.env.Tracks (s.call params))
          (((st.bind p.offset (.function index)).push .function).declareAll p params) := by
        rw [← Scopes.enter_declareAll outside distinct]
        exact declareAll_decides (tracks.push_function outside) (by simp [Scopes.enter]) p params
      rw [sites]
      simp only [visit, show table.nodes[p.offset]? = some index from found]
      refine at_site (named.bind fun st tracks => (visit_decides serves body inner
        (standing_of_admitted inner) tracks).bind fun st tracks => .ok (tracks.pop_call outside _))
          fun _ => ?_
      constructor
      · rintro ⟨_, inside, _⟩
        exact ⟨trivial, inside⟩
      · rintro ⟨_, inside⟩
        exact ⟨slots_of_fits inside, inside, trivial⟩
  | bind name bound body p =>
      cases admitted with
      | bind _ outer inner =>
      have first := visit_decides serves bound outer (standing_of_admitted outer) tracks
      rw [sites]
      refine at_site (first.bind fun st tracks => (declare_decides tracks.push
        (by simp [Scopes.enter]) name p).bind fun declared tracks => (visit_decides serves body
          inner (standing_of_admitted inner) (by simpa using tracks)).bind
            fun st tracks => .ok ?_) fun _ => ?_
      · exact .pop_enter (name :: body.declares) tracks
      · -- The name has its slot if the body, which stands behind it, has room.
        rw [List.forall_mem_append]
        constructor
        · rintro ⟨outside, _, inside, _⟩
          exact ⟨trivial, outside, inside⟩
        · rintro ⟨_, outside, inside⟩
          exact ⟨outside, slots_of_fits inside, inside, trivial⟩
  | branch condition yes no p =>
      cases admitted with
      | branch _ first second third =>
      have tested := visit_decides serves condition first (standing_of_admitted first) tracks
      have last (st : State) (tracks : st.env.Tracks ((s.after condition).after yes)) :
          Decides (∀ site ∈ no.sites ((s.after condition).after yes), site.Fits defs)
            (fun st => st.env.Tracks (s.after (.branch condition yes no p))) (visit table no st) := by
        rw [Scopes.after_branch]
        exact visit_decides serves no third (standing_of_admitted third) tracks
      rw [sites]
      refine at_site (tested.bind fun st tracks => (visit_decides serves yes second
        (standing_of_admitted second) tracks).bind last) fun _ => ?_
      simp only [Site.Known, List.forall_mem_append, and_assoc, true_and]
  | block body p =>
      cases admitted with
      | block _ inner =>
      rw [sites]
      refine at_site ((visitAll_decides serves body inner
        (fun e listed => standing_of_admitted (inner e listed)) tracks.push).bind
          fun st tracks => .ok ?_) ?_
      · exact tracks.pop_enter _
      · simp [Site.Known]
  | cond clauses p =>
      cases admitted with
      | cond _ tests consequents =>
      rw [sites]
      exact at_site (visitClauses_decides serves clauses tests consequents tracks)
        (by simp [Site.Known])
  | call name args p =>
      cases admitted with
      | call _ _ inner =>
      rw [sites]
      refine at_site ((resolveCallee_decides serves st.env name args.length p).bind fun callee _ =>
        visitAll_decides serves args inner
          (fun e listed => standing_of_admitted (inner e listed)) tracks) ?_
      simp [Site.Known]
  | compose first stages p =>
      cases admitted with
      | compose _ inner =>
      have start := visit_decides serves first inner (standing_of_admitted inner) tracks
      rw [sites]
      refine at_site (start.bind fun st tracks => resolveStages_decides serves tracks stages) ?_
      simp [Site.Known, and_comm]

theorem visitAll_decides (serves : table.Serves defs) (es : List Expression) {depth : Nat}
    {st : State} {s : Scopes} (admitted : ∀ e ∈ es, e.Admitted depth)
    (standing : ∀ e ∈ es, Standing table s e) (tracks : st.env.Tracks s) :
    Decides (∀ site ∈ sitesAll es s, site.Fits defs)
      (fun st => st.env.Tracks (s.declareAll (declaresAll es))) (visitAll table es st) := by
  cases es with
  | nil => exact ⟨nofun, tracks⟩
  | cons e rest =>
      obtain ⟨first, others⟩ := List.forall_mem_cons.mp admitted
      obtain ⟨here, there⟩ := List.forall_mem_cons.mp standing
      rw [sitesAll, Scopes.after_sequence]
      refine ((visit_decides serves e first here tracks).bind fun st tracks =>
        visitAll_decides serves rest others (fun e listed => (there e listed).declareAll _)
          tracks).congr ?_
      exact List.forall_mem_append.symm

theorem visitClauses_decides (serves : table.Serves defs) (clauses : List (Expression × Expression))
    {depth : Nat} {st : State} {s : Scopes}
    (tests : ∀ clause ∈ clauses, clause.1.Admitted (depth + 1))
    (consequents : ∀ clause ∈ clauses, clause.2.Admitted (depth + 1)) (tracks : st.env.Tracks s) :
    Decides (∀ site ∈ sitesClauses clauses s, site.Fits defs)
      (fun st => st.env.Tracks (s.declareAll (declaresTests clauses)))
      (visitClauses table clauses st) := by
  cases clauses with
  | nil => exact ⟨nofun, tracks⟩
  | cons clause rest =>
      obtain ⟨test, consequent⟩ := clause
      obtain ⟨first, others⟩ := List.forall_mem_cons.mp tests
      obtain ⟨second, more⟩ := List.forall_mem_cons.mp consequents
      rw [sitesClauses, Scopes.after_clauses]
      refine ((visit_decides serves test first (standing_of_admitted first) tracks).bind fun st tracks =>
        (visit_decides serves consequent second (standing_of_admitted second)
          tracks.push).bind fun st tracks =>
            visitClauses_decides serves rest others more (tracks.pop_enter _)).congr ?_
      rw [List.forall_mem_append, List.forall_mem_append, and_assoc]

end

theorem resolve_decides {forms : List Expression} (admitted : ∀ e ∈ forms, e.Admitted 0)
    (p : Position) : Decides (WellScoped forms) (fun _ => True) (resolve (.block forms p)) := by
  refine ((ofForms_decides .empty admitted).bind fun table serves =>
    (visitAll_decides serves forms admitted (fun e listed => ?_) .global).bind
      fun st _ => .ok trivial).congr ?_
  · intro d defined
    exact ⟨rfl, serves.lists.listed d (List.mem_filterMap.mpr ⟨e, listed, defined⟩)⟩
  · constructor
    · rintro ⟨functions, sites, _⟩
      exact ⟨functions, sites⟩
    · rintro ⟨functions, sites⟩
      exact ⟨functions, sites, trivial⟩

end Resolution

end LispMachine
