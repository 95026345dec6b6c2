import LispMachine.Proofs.Locals.Declarations
import LispMachine.Proofs.Resolution.Agreement
import LispMachine.Proofs.Scoping.Deciding

set_option autoImplicit false

namespace LispMachine

open Expression

def Definition.form (d : Definition) : Expression := .function d.name d.params d.body d.position

inductive Exchanged : List Expression → List Expression → Prop
  | here {d d' : Definition} {next rest} :
      Exchanged (d.form :: d'.form :: next :: rest) (d'.form :: d.form :: next :: rest)
  | later {e forms forms'} : Exchanged forms forms' → Exchanged (e :: forms) (e :: forms')

namespace Exchanged

variable {forms forms' : List Expression}

theorem symm (exchanged : Exchanged forms forms') : Exchanged forms' forms := by
  induction exchanged with
  | here => exact .here
  | later _ ih => exact .later ih

theorem perm (exchanged : Exchanged forms forms') : forms.Perm forms' := by
  induction exchanged with
  | here => exact .swap _ _ _
  | later _ ih => exact ih.cons _

theorem forall_mem (exchanged : Exchanged forms forms') {P : Expression → Prop} (each : ∀ e ∈ forms, P e) :
    ∀ e ∈ forms', P e :=
  fun e listed => each e (exchanged.perm.mem_iff.mpr listed)

theorem definitions (exchanged : Exchanged forms forms') :
    (definitions forms).Perm (definitions forms') :=
  exchanged.perm.filterMap _

theorem nodes (exchanged : Exchanged forms forms') : (nodesAll forms).Perm (nodesAll forms') := by
  induction exchanged with
  | here => exact List.perm_append_comm_assoc _ _ _
  | later _ ih => exact ih.append_left _

-- A function declares nothing in the scope it stands in.
theorem mem_sites (exchanged : Exchanged forms forms') {s : Scopes} {site : Site}
    (stands : site ∈ sitesAll forms' s) : site ∈ sitesAll forms s := by
  induction exchanged generalizing s with
  | @here d d' next rest =>
      have same (d : Definition) : s.after d.form = s := rfl
      rw [sitesAll, sitesAll, same, same] at stands ⊢
      simp only [List.mem_append] at stands ⊢
      exact or_left_comm.mp stands
  | later _ ih =>
      rw [sitesAll, List.mem_append] at stands ⊢
      exact stands.imp_right ih

end Exchanged

theorem Definition.Callable.mono {defs defs' : List Definition} (listed : ∀ d ∈ defs, d ∈ defs') {name : String}
    {argc : Nat} (callable : Callable defs name argc) : Callable defs' name argc := by
  rcases callable with builtin | ⟨d, member, named, arity⟩
  · exact .inl builtin
  · exact .inr ⟨d, listed d member, named, arity⟩

theorem Site.Known.mono {defs defs' : List Definition} (listed : ∀ d ∈ defs, d ∈ defs') {site : Site}
    (known : site.Known defs) : site.Known defs' := by
  obtain ⟨e, s⟩ := site
  cases e with
  | symbol name p =>
      refine Or.imp_right (Or.imp_right ?_) known
      rintro ⟨d, member, named⟩
      exact ⟨d, listed d member, named⟩
  | call name args p => exact Definition.Callable.mono listed known
  | compose first stages p => exact fun stage member => (known stage member).mono listed
  | _ => trivial

theorem Definition.Compatible.perm {defs defs' : List Definition} (compatible : Compatible defs)
    (same : defs.Perm defs') : Compatible defs' where
  distinct := (same.map Definition.name).nodup_iff.mp compatible.distinct
  builtin d listed := compatible.builtin d (same.mem_iff.mpr listed)
  few := same.length_eq ▸ compatible.few

theorem WellScoped.exchange {forms forms' : List Expression} (wellScoped : WellScoped forms)
    (exchanged : Exchanged forms forms') : WellScoped forms' where
  functions := wellScoped.functions.perm exchanged.definitions
  sites site stands := by
    obtain ⟨known, slots⟩ := wellScoped.sites site (exchanged.mem_sites stands)
    exact ⟨known.mono fun d => exchanged.definitions.mem_iff.mp, slots⟩

def Definition.Corresponds (defs defs' : List Definition) (i j : UInt16) : Prop :=
  ∃ d, defs[i.toNat]? = some d ∧ defs'[j.toNat]? = some d

namespace Resolution

open Definition (Corresponds)

variable {r r' : Resolution} {table table' : Table} {forms forms' : List Expression}

theorem Table.Lists.parallel {defs defs' : List Definition} (lists : table.Lists defs)
    (lists' : table'.Lists defs') (same : defs.Perm defs') (compatible : Definition.Compatible defs)
    (distinct : (defs.map Definition.id).Nodup) : table.Parallel (Corresponds defs defs') table' where
  index {name i j} at_i at_j := by
    obtain ⟨d, found, named⟩ := lists.index name i at_i
    obtain ⟨d', found', named'⟩ := lists'.index name j at_j
    have listed := same.mem_iff.mpr (List.mem_of_getElem? found')
    obtain rfl := compatible.eq_of_name (List.mem_of_getElem? found) listed (named.trans named'.symm)
    exact ⟨d, found, found'⟩
  nodes {id i j} at_i at_j := by
    obtain ⟨d, found, placed⟩ := lists.nodes id i at_i
    obtain ⟨d', found', placed'⟩ := lists'.nodes id j at_j
    have listed := same.mem_iff.mpr (List.mem_of_getElem? found')
    obtain rfl := List.inj_on_of_nodup_map distinct (List.mem_of_getElem? found) listed
      (placed.trans placed'.symm)
    exact ⟨d, found, found'⟩

section Forms

variable {e : Expression} {rest : List Expression} {env after after' : Environment}

theorem ResolvedForms.split (resolved : ResolvedForms r table (e :: rest) env after) :
    ∃ inner, ResolvedForms r table [e] env inner ∧ ResolvedForms r table rest inner after := by
  cases resolved with
  | function numbered entry declared body rest =>
      exact ⟨_, .function numbered entry declared body .nil, rest⟩
  | form head rest => exact ⟨_, .form head .nil, rest⟩

theorem ResolvedForms.sound {defs : List Definition} (resolved : ResolvedForms r table forms env after)
    (known : r.Knows table defs) (sound : env.Sound) : after.Sound := by
  induction resolved with
  | nil => exact sound
  | function _ _ declared body _ ih =>
      exact ih (body.covers known (declared.sound (sound.push .function))).2.pop
  | form head _ ih => exact ih (head.covers known sound).2

theorem ResolvedForms.of_definition {d : Definition}
    (resolved : ResolvedForms r table (d.form :: rest) env after) :
    ResolvedForms r table [d.form] env env ∧ ResolvedForms r table rest env after := by
  cases resolved with
  | form head => cases head
  | function numbered entry declared body rest =>
      have own : ResolvedForms r table [d.form] env _ := .function numbered entry declared body .nil
      rw [(declared.within.trans body.within).pop] at own rest
      exact ⟨own, rest⟩

theorem ResolvedForms.parallel_same {numbers : UInt16 → UInt16 → Prop} {defs : List Definition}
    (tables : table.Parallel numbers table') (known : r.Knows table defs)
    (admitted : ∀ e ∈ forms, e.Admitted 0) (sound : env.Sound)
    (resolved : ResolvedForms r table forms env after)
    (resolved' : ResolvedForms r' table' forms env after') :
    after' = after ∧ ∀ e ∈ forms, ParallelForm numbers r r' e := by
  rw [← unthreadAll_none forms] at resolved'
  exact resolved.parallel tables known admitted sound resolved'

theorem ResolvedForms.exchange {numbers : UInt16 → UInt16 → Prop} {defs : List Definition}
    (tables : table.Parallel numbers table') (known : r.Knows table defs)
    (exchanged : Exchanged forms forms') (admitted : ∀ e ∈ forms, e.Admitted 0) (sound : env.Sound)
    (resolved : ResolvedForms r table forms env after)
    (resolved' : ResolvedForms r' table' forms' env after') :
    ∀ e ∈ forms, ParallelForm numbers r r' e := by
  induction exchanged generalizing env with
  | here =>
      simp only [List.forall_mem_cons] at admitted
      obtain ⟨first, second, others⟩ := admitted
      obtain ⟨one, resolved⟩ := resolved.of_definition
      obtain ⟨two, resolved⟩ := resolved.of_definition
      obtain ⟨two', resolved'⟩ := resolved'.of_definition
      obtain ⟨one', resolved'⟩ := resolved'.of_definition
      have one := (one.parallel_same tables known (by simpa using first) sound one').2
      have two := (two.parallel_same tables known (by simpa using second) sound two').2
      have rest := (resolved.parallel_same tables known (by simpa using others) sound resolved').2
      rw [List.forall_mem_singleton] at one two
      exact List.forall_mem_cons.mpr ⟨one, List.forall_mem_cons.mpr ⟨two, rest⟩⟩
  | later _ ih =>
      obtain ⟨first, others⟩ := List.forall_mem_cons.mp admitted
      obtain ⟨_, head, rest⟩ := resolved.split
      obtain ⟨_, head', rest'⟩ := resolved'.split
      obtain ⟨rfl, own⟩ := head.parallel_same tables known (by simpa using first) sound head'
      rw [List.forall_mem_singleton] at own
      exact List.forall_mem_cons.mpr ⟨own, ih others (head.sound known sound) rest rest'⟩

end Forms

theorem resolve_exchange (exchanged : Exchanged forms forms') (admitted : ∀ e ∈ forms, e.Admitted 0)
    (p : Position) :
    (∃ r, resolve (.block forms p) = .ok r) ↔ ∃ r, resolve (.block forms' p) = .ok r := by
  rw [(resolve_decides admitted p).ok_iff, (resolve_decides (exchanged.forall_mem admitted) p).ok_iff]
  exact ⟨fun wellScoped => wellScoped.exchange exchanged, fun wellScoped => wellScoped.exchange exchanged.symm⟩

theorem resolve_exchange_parallel {p : Position} (exchanged : Exchanged forms forms')
    (distinct : (nodesAll forms).Nodup) (admitted : ∀ e ∈ forms, e.Admitted 0)
    (resolved : resolve (.block forms p) = .ok r) (resolved' : resolve (.block forms' p) = .ok r') :
    ∀ e ∈ forms, ParallelForm (Corresponds (definitions forms) (definitions forms')) r r' e := by
  have compatible := ((resolve_decides admitted p).ok_iff.mp ⟨r, resolved⟩).functions
  obtain ⟨table, after, lists, functions, found⟩ := resolve_forms distinct resolved
  obtain ⟨table', after', lists', functions', found'⟩ :=
    resolve_forms (exchanged.nodes.nodup_iff.mp distinct) resolved'
  have tables := lists.parallel lists' exchanged.definitions compatible (nodup_definitions distinct)
  exact found.exchange tables ⟨lists, functions⟩ exchanged admitted Environment.sound_global found'

end Resolution

end LispMachine
