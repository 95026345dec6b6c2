import LispMachine.Proofs.Resolution.Resolved

set_option autoImplicit false

namespace LispMachine

structure Definition where
  name : String
  params : List String
  body : Expression
  position : Position

namespace Definition

def id (d : Definition) : Nat := d.position.offset

def signature (d : Definition) : Signature := ⟨d.name, UInt8.ofNat d.params.length⟩

end Definition

namespace Expression

def definition? : Expression → Option Definition
  | .function name params body p => some ⟨name, params, body, p⟩
  | _ => none

def definitions (forms : List Expression) : List Definition := forms.filterMap definition?

theorem definitions_of_none {e : Expression} (plain : e.definition? = none) (rest : List Expression) :
    definitions (e :: rest) = definitions rest := by
  simp [definitions, plain]

theorem definitions_of_some {e : Expression} {d : Definition} (defined : e.definition? = some d)
    (rest : List Expression) : definitions (e :: rest) = d :: definitions rest := by
  simp [definitions, defined]

theorem definition?_eq_some {e : Expression} {d : Definition} (defined : e.definition? = some d) :
    e = .function d.name d.params d.body d.position := by
  cases e <;> simp [definition?] at defined
  subst defined
  rfl

theorem id_mem_nodes {e : Expression} {d : Definition} (defined : e.definition? = some d) :
    d.id ∈ e.nodes := by
  rw [definition?_eq_some defined]
  exact List.mem_cons_self

theorem id_mem_nodesAll {forms : List Expression} {d : Definition} (listed : d ∈ definitions forms) :
    d.id ∈ nodesAll forms := by
  induction forms with
  | nil => cases listed
  | cons e rest ih =>
      rw [nodesAll, List.mem_append]
      cases defined : e.definition? with
      | none =>
          rw [definitions_of_none defined] at listed
          exact .inr (ih listed)
      | some first =>
          rw [definitions_of_some defined] at listed
          rcases List.mem_cons.mp listed with rfl | later
          · exact .inl (id_mem_nodes defined)
          · exact .inr (ih later)

theorem nodup_definitions {forms : List Expression} (distinct : (nodesAll forms).Nodup) :
    ((definitions forms).map Definition.id).Nodup := by
  induction forms with
  | nil => exact .nil
  | cons e rest ih =>
      obtain ⟨_, later, apart⟩ := List.nodup_append.mp distinct
      cases defined : e.definition? with
      | none =>
          rw [definitions_of_none defined]
          exact ih later
      | some first =>
          rw [definitions_of_some defined, List.map_cons, List.nodup_cons]
          refine ⟨fun again => ?_, ih later⟩
          obtain ⟨other, listed, same⟩ := List.mem_map.mp again
          exact apart first.id (id_mem_nodes defined) other.id (id_mem_nodesAll listed) same.symm

end Expression

namespace Resolution

open Expression

structure Table.Lists (table : Table) (defs : List Definition) : Prop where
  signatures : table.signatures.toList = defs.map Definition.signature
  size : defs.length ≤ Table.limit
  arity : ∀ d ∈ defs, d.params.length ≤ maxArity
  index : ∀ (name : String) (i : UInt16), table.index[name]? = some i →
    ∃ d, defs[i.toNat]? = some d ∧ d.name = name
  nodes : ∀ (id : Nat) (i : UInt16), table.nodes[id]? = some i →
    ∃ d, defs[i.toNat]? = some d ∧ d.id = id
  listed : ∀ d ∈ defs, (table.nodes[d.id]?).isSome

namespace Table.Lists

theorem empty : Table.empty.Lists [] := by
  constructor <;> simp [Table.empty]

theorem addFunction {table table' : Table} {defs : List Definition} {d : Definition}
    (lists : table.Lists defs) (added : table.addFunction d.name d.params d.position = .ok table') :
    table'.Lists (defs ++ [d]) := by
  obtain ⟨signatures, index, nodes⟩ := table
  have length : signatures.size = defs.length := by
    simpa using congrArg List.length lists.signatures
  simp only [Table.addFunction] at added
  split at added
  · cases added
  · split at added
    · cases added
    · split at added
      · cases added
      next room =>
        split at added
        · cases added
        next arity =>
          cases added
          have number : (UInt16.ofNat signatures.size).toNat = defs.length := by
            rw [length] at room ⊢
            exact UInt16.toNat_ofNat_of_lt' (by simpa [Table.limit] using room)
          -- The new number finds the new definition, the older numbers find what they found.
          have older (i : UInt16) {e : Definition} (found : defs[i.toNat]? = some e) :
              (defs ++ [d])[i.toNat]? = some e := by
            rw [List.getElem?_append_left (List.getElem?_eq_some_iff.mp found).1, found]
          have newest : (defs ++ [d])[(UInt16.ofNat signatures.size).toNat]? = some d := by
            simp [number]
          constructor
          case signatures => simpa [Definition.signature] using lists.signatures
          case size =>
            rw [List.length_append, List.length_singleton]
            rw [length] at room
            omega
          case arity =>
            intro e member
            rcases List.mem_append.mp member with old | new
            · exact lists.arity e old
            · rw [List.mem_singleton.mp new]
              omega
          case index =>
            intro name i found
            rw [Std.HashMap.getElem?_insert] at found
            split at found
            next same =>
              cases found
              exact ⟨d, newest, by simpa using same⟩
            next =>
              obtain ⟨e, at_i, named⟩ := lists.index name i found
              exact ⟨e, older i at_i, named⟩
          case nodes =>
            intro id i found
            rw [Std.HashMap.getElem?_insert] at found
            split at found
            next same =>
              cases found
              exact ⟨d, newest, by simpa [Definition.id] using same⟩
            next =>
              obtain ⟨e, at_i, placed⟩ := lists.nodes id i found
              exact ⟨e, older i at_i, placed⟩
          case listed =>
            intro e member
            rw [Std.HashMap.getElem?_insert]
            split
            · rfl
            next different =>
              rcases List.mem_append.mp member with old | new
              · exact lists.listed e old
              · rw [List.mem_singleton.mp new] at different
                simp [Definition.id] at different

theorem add_of_none {table : Table} {e : Expression} (plain : e.definition? = none) :
    table.add e = .ok table := by
  cases e <;> simp [definition?] at plain <;> rfl

theorem ofForms {forms : List Expression} {table table' : Table} {defs : List Definition}
    (lists : table.Lists defs) (read : forms.foldlM Table.add table = .ok table') :
    table'.Lists (defs ++ definitions forms) := by
  induction forms generalizing table defs with
  | nil =>
      cases read
      simpa [definitions] using lists
  | cons e rest ih =>
      rw [List.foldlM_cons] at read
      obtain ⟨middle, first, later⟩ := bind_ok.mp read
      cases defined : e.definition? with
      | none =>
          rw [add_of_none defined] at first
          cases first
          rw [definitions_of_none defined]
          exact ih lists later
      | some d =>
          rw [definition?_eq_some defined] at first
          rw [definitions_of_some defined, List.append_cons]
          exact ih (lists.addFunction first) later

theorem number {table : Table} {defs : List Definition} (lists : table.Lists defs)
    (distinct : (defs.map Definition.id).Nodup) {d : Definition} {k : Nat} (found : defs[k]? = some d) :
    table.nodes[d.id]? = some (UInt16.ofNat k) := by
  obtain ⟨i, numbered⟩ := Option.isSome_iff_exists.mp (lists.listed d (List.mem_of_getElem? found))
  obtain ⟨e, at_i, same⟩ := lists.nodes d.id i numbered
  have place : i.toNat = k := by
    apply (List.getElem?_inj ?_ distinct).mp
    · rw [List.getElem?_map, List.getElem?_map, at_i, found]
      simp [same]
    · rw [List.length_map]
      exact (List.getElem?_eq_some_iff.mp at_i).1
  rw [numbered, ← place, UInt16.ofNat_toNat]

end Table.Lists

theorem visit_function_settled {table : Table} {d : Definition} {index : UInt16} {s s' : State}
    (numbered : table.nodes[d.id]? = some index)
    (plain : ∀ id ∈ d.body.nodes, table.nodes[id]? = none)
    (visited : visit table (.function d.name d.params d.body d.position) s = .ok s') :
    ∃ inside inner, Declared d.params (s.env.push .function) inside ∧ s'.env = inner.pop ∧
      Settled (d.id :: d.body.nodes) s s'
        (fun r => r.bindings[d.id]? = some (.function index) ∧ Resolved r table d.body inside inner) := by
  simp only [visit, show table.nodes[d.position.offset]? = some index from numbered] at visited
  obtain ⟨s₁, declared, visited⟩ := bind_ok.mp visited
  obtain ⟨s₂, second, visited⟩ := bind_ok.mp visited
  cases visited
  obtain ⟨names, same⟩ := State.declareAll_ok declared
  have head : Settled [d.id] s s₁ _ := (Settled.bind s d.id (.function index)).within ⟨rfl, rfl⟩ same
  have whole : Settled _ s s₂.pop _ :=
    (head.trans (visit_settled table d.body plain second)).within ⟨rfl, rfl⟩ ⟨rfl, rfl⟩
  exact ⟨s₁.env, s₂.env, names, rfl, whole⟩

theorem visitAll_forms_settled {table : Table} {forms : List Expression} {s s' : State}
    (distinct : (nodesAll forms).Nodup)
    (listed : ∀ d ∈ definitions forms, (table.nodes[d.id]?).isSome)
    (only : ∀ id ∈ nodesAll forms, (table.nodes[id]?).isSome →
      id ∈ (definitions forms).map Definition.id)
    (visited : visitAll table forms s = .ok s') :
    Settled (nodesAll forms) s s' (fun r => ResolvedForms r table forms s.env s'.env) := by
  induction forms generalizing s with
  | nil =>
      cases visited
      exact .alike ⟨rfl, rfl⟩ fun _ => .nil
  | cons e rest ih =>
      obtain ⟨s₁, first, visited⟩ := bind_ok.mp visited
      obtain ⟨own, others, apart⟩ := List.nodup_append.mp distinct
      have elsewhere {id : Nat} (member : id ∈ e.nodes) : id ∉ (definitions rest).map Definition.id := by
        intro again
        obtain ⟨d, found, rfl⟩ := List.mem_map.mp again
        exact apart d.id member d.id (id_mem_nodesAll found) rfl
      cases defined : e.definition? with
      | none =>
          rw [definitions_of_none defined] at listed only
          have plain (id : Nat) (member : id ∈ e.nodes) : table.nodes[id]? = none := by
            rw [← Option.not_isSome_iff_eq_none]
            exact fun h => elsewhere member (only id (List.mem_append_left _ member) h)
          have head := visit_settled table e plain first
          have tail := ih others listed
            (fun id member => only id (List.mem_append_right _ member)) visited
          exact (head.trans tail).imp fun r claims => .form claims.1 claims.2
      | some d =>
          rw [definitions_of_some defined] at listed only
          have shape := definition?_eq_some defined
          have parts : e.nodes = d.id :: d.body.nodes := by rw [shape]; rfl
          obtain ⟨index, numbered⟩ :=
            Option.isSome_iff_exists.mp (listed d List.mem_cons_self)
          have plain (id : Nat) (member : id ∈ d.body.nodes) : table.nodes[id]? = none := by
            rw [parts] at own elsewhere
            rw [← Option.not_isSome_iff_eq_none]
            intro h
            have inside : id ∈ nodesAll (e :: rest) := by simp [nodesAll, parts, member]
            rcases List.mem_cons.mp (only id inside h) with rfl | again
            · exact (List.nodup_cons.mp own).1 member
            · exact elsewhere (List.mem_cons_of_mem _ member) again
          have beyond (id : Nat) (member : id ∈ nodesAll rest) (h : (table.nodes[id]?).isSome) :
              id ∈ (definitions rest).map Definition.id := by
            rcases List.mem_cons.mp (only id (List.mem_append_right _ member) h) with rfl | again
            · exact absurd rfl (apart d.id (by simp [parts]) d.id member)
            · exact again
          rw [shape] at first
          obtain ⟨inside, inner, names, left, head⟩ := visit_function_settled numbered plain first
          have tail := ih others (fun d' member => listed d' (List.mem_cons_of_mem _ member))
            beyond visited
          rw [nodesAll, parts]
          refine (head.trans tail).imp fun r claims => ?_
          rw [left] at claims
          rw [shape]
          exact .function numbered claims.1.1 names claims.1.2 claims.2

theorem visitAll_forms {table : Table} {forms : List Expression} {s : State}
    (distinct : (nodesAll forms).Nodup) (lists : table.Lists (definitions forms))
    (visited : visitAll table forms .initial = .ok s) :
    ResolvedForms ⟨s.bindings, s.callees, table.signatures⟩ table forms .global s.env := by
  have only (id : Nat) (_ : id ∈ nodesAll forms) (h : (table.nodes[id]?).isSome) :
      id ∈ (definitions forms).map Definition.id := by
    obtain ⟨i, numbered⟩ := Option.isSome_iff_exists.mp h
    obtain ⟨d, found, placed⟩ := lists.nodes id i numbered
    exact List.mem_map.mpr ⟨d, List.mem_of_getElem? found, placed⟩
  have settled := visitAll_forms_settled distinct lists.listed only visited
  exact settled.inside distinct _ fun id _ => ⟨rfl, rfl⟩

theorem resolve_forms {forms : List Expression} {p : Position} {r : Resolution}
    (distinct : (nodesAll forms).Nodup) (resolved : resolve (.block forms p) = .ok r) :
    ∃ table after, Table.Lists table (definitions forms) ∧ r.functions = table.signatures ∧
      ResolvedForms r table forms .global after := by
  obtain ⟨table, read, resolved⟩ := bind_ok.mp resolved
  obtain ⟨s, visited, resolved⟩ := bind_ok.mp resolved
  cases resolved
  have lists : table.Lists (definitions forms) := Table.Lists.empty.ofForms read
  exact ⟨table, s.env, lists, rfl, visitAll_forms distinct lists visited⟩

end Resolution

end LispMachine
