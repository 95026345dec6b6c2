import LispMachine.Proofs.Layout

set_option autoImplicit false

namespace LispMachine

def Opcode.successors (i : Nat) : Opcode → List Nat
  | .ret => []
  | .jump target => [target.toNat]
  | .jumpIfFalse target => [i + 1, target.toNat]
  | _ => [i + 1]

def Leads (code : Array Instruction) (i j : Nat) : Prop :=
  ∃ instruction, code[i]? = some instruction ∧ j ∈ instruction.opcode.successors i

inductive Path (code : Array Instruction) (i : Nat) : Nat → Prop
  | here : Path code i i
  | next {j k} : Path code i j → Leads code j k → Path code i k

theorem Path.trans {code : Array Instruction} {i j k : Nat} (first : Path code i j) (second : Path code j k) :
    Path code i k := by
  induction second with
  | here => exact first
  | next _ leads ih => exact ih.next leads

structure Consistent (depth : Nat → Nat) (stop top k : Nat) (op : Opcode) : Prop where
  pops : op.stackEffect.1 ≤ depth k
  stays : op ≠ .ret
  bound : op.depthAfter (depth k) ≤ top
  edges : ∀ j ∈ op.successors k, k < j ∧ j ≤ stop ∧ depth j = op.depthAfter (depth k)

structure Stretch (code : Array Instruction) (depth : Nat → Nat) (i stop top : Nat) : Prop where
  order : i ≤ stop
  each : ∀ k, i ≤ k → k < stop → ∃ instruction, code[k]? = some instruction ∧
    Consistent depth stop top k instruction.opcode
  attained : top = 0 ∨ ∃ k instruction, i ≤ k ∧ k < stop ∧ code[k]? = some instruction ∧
    instruction.opcode.depthAfter (depth k) = top
  reached : ∀ k, i ≤ k → k ≤ stop → Path code i k

namespace Consistent

variable {depth depth' : Nat → Nat} {stop stop' top top' k : Nat} {op : Opcode}

theorem weaken (consistent : Consistent depth stop top k op) (far : stop ≤ stop') (high : top ≤ top') :
    Consistent depth stop' top' k op where
  pops := consistent.pops
  stays := consistent.stays
  bound := Nat.le_trans consistent.bound high
  edges j edge := by
    obtain ⟨ahead, inside, same⟩ := consistent.edges j edge
    exact ⟨ahead, Nat.le_trans inside far, same⟩

theorem congr (consistent : Consistent depth stop top k op)
    (same : ∀ n, k ≤ n → n ≤ stop → depth' n = depth n) (inside : k ≤ stop) :
    Consistent depth' stop top k op := by
  have here := same k (Nat.le_refl _) inside
  obtain ⟨pops, stays, bound, edges⟩ := consistent
  refine ⟨here ▸ pops, stays, here ▸ bound, fun j edge => ?_⟩
  obtain ⟨ahead, within, equal⟩ := edges j edge
  exact ⟨ahead, within, by rw [same j (Nat.le_of_lt ahead) within, equal, here]⟩

end Consistent

namespace Stretch

variable {code : Array Instruction} {depth depth' : Nat → Nat} {i j k stop top top' : Nat}

theorem congr (stretch : Stretch code depth i stop top)
    (same : ∀ n, i ≤ n → n ≤ stop → depth' n = depth n) : Stretch code depth' i stop top where
  order := stretch.order
  each k low high := by
    obtain ⟨instruction, found, consistent⟩ := stretch.each k low high
    refine ⟨instruction, found, consistent.congr (fun n from_k => ?_) (Nat.le_of_lt high)⟩
    exact same n (Nat.le_trans low from_k)
  attained := by
    refine stretch.attained.imp id fun ⟨k, instruction, low, high, found, equal⟩ => ?_
    exact ⟨k, instruction, low, high, found, by rw [same k low (Nat.le_of_lt high), equal]⟩
  reached := stretch.reached

theorem nil (code : Array Instruction) (depth : Nat → Nat) (i : Nat) : Stretch code depth i i 0 where
  order := Nat.le_refl _
  each _ low high := absurd high (Nat.not_lt_of_le low)
  attained := .inl rfl
  reached _ low high := Nat.le_antisymm low high ▸ .here

theorem append (first : Stretch code depth i j top) (second : Stretch code depth j stop top') :
    Stretch code depth i stop (max top top') where
  order := Nat.le_trans first.order second.order
  each k low high := by
    by_cases before : k < j
    · obtain ⟨instruction, found, consistent⟩ := first.each k low before
      exact ⟨instruction, found, consistent.weaken second.order (Nat.le_max_left _ _)⟩
    · obtain ⟨instruction, found, consistent⟩ := second.each k (Nat.le_of_not_lt before) high
      exact ⟨instruction, found, consistent.weaken (Nat.le_refl _) (Nat.le_max_right _ _)⟩
  attained := by
    have order := first.order
    have order' := second.order
    rcases Nat.le_total top top' with low | low
    · rw [Nat.max_eq_right low]
      refine second.attained.imp id fun ⟨k, instruction, from_j, high, rest⟩ => ?_
      exact ⟨k, instruction, Nat.le_trans order from_j, high, rest⟩
    · rw [Nat.max_eq_left low]
      refine first.attained.imp id fun ⟨k, instruction, from_i, high, rest⟩ => ?_
      exact ⟨k, instruction, from_i, Nat.lt_of_lt_of_le high order', rest⟩
  reached k low high := by
    by_cases before : k ≤ j
    · exact first.reached k low before
    · have half := first.reached j first.order (Nat.le_refl _)
      exact half.trans (second.reached k (by omega) high)

end Stretch

def Spans (code : Array Instruction) (i stop before after top : Nat) : Prop :=
  ∃ depth, depth i = before ∧ depth stop = after ∧ Stretch code depth i stop top

namespace Spans

variable {code : Array Instruction} {m : Method} {i j k stop before between after top top' d : Nat} {op : Opcode}
  {p : Position}

theorem congr (spans : Spans code i stop before after top) (same : top = top') :
    Spans code i stop before after top' := same ▸ spans

theorem nil (code : Array Instruction) (i depth : Nat) : Spans code i i depth depth 0 :=
  ⟨fun _ => depth, rfl, rfl, .nil code _ i⟩

theorem single (placed : Placed m d i op p) (plain : op.successors i = [i + 1]) :
    Spans m.chunk.code i (i + 1) d (op.depthAfter d) (op.depthAfter d) := by
  let depth (n : Nat) : Nat := if n = i then d else op.depthAfter d
  have here : depth i = d := if_pos rfl
  have there : depth (i + 1) = op.depthAfter d := if_neg (Nat.succ_ne_self i)
  have edge : Leads m.chunk.code i (i + 1) := ⟨_, placed.code, by simp [plain]⟩
  refine ⟨depth, here, there, Nat.le_succ i, fun k low high => ?_, ?_, fun k low high => ?_⟩
  · obtain rfl : k = i := by omega
    refine ⟨_, placed.code, here ▸ placed.pops, ?_, Nat.le_of_eq (by rw [here]), fun j member => ?_⟩
    · rintro rfl
      cases plain
    · obtain rfl : j = k + 1 := by simpa [plain] using member
      exact ⟨Nat.lt_succ_self k, Nat.le_refl _, by rw [there, here]⟩
  · exact .inr ⟨i, _, Nat.le_refl _, Nat.lt_succ_self i, placed.code, by rw [here]⟩
  · by_cases first : k = i
    · exact first ▸ .here
    · obtain rfl : k = i + 1 := by omega
      exact Path.here.next edge

theorem append (first : Spans code i j before between top) (second : Spans code j stop between after top') :
    Spans code i stop before after (max top top') := by
  obtain ⟨depth, start, middle, first⟩ := first
  obtain ⟨depth', middle', finish, second⟩ := second
  let both (n : Nat) : Nat := if n ≤ j then depth n else depth' n
  have low (n : Nat) (inside : n ≤ j) : both n = depth n := if_pos inside
  have high (n : Nat) (inside : j ≤ n) : both n = depth' n := by
    by_cases last : n = j
    · rw [last, low j (Nat.le_refl j), middle, middle']
    · exact if_neg (by omega)
  refine ⟨both, ?_, ?_, ?_⟩
  · rw [low i first.order, start]
  · rw [high stop second.order, finish]
  · exact (first.congr fun n _ => low n).append (second.congr fun n inside _ => high n inside)

end Spans

section Arms

variable {m : Method} {depth : Nat → Nat} {d j k stop yes no : Nat} {p : Position} {toElse toEnd : UInt32}

theorem Stretch.arms (skip : Placed m (d + 1) j (.jumpIfFalse toElse) p)
    (leave : Placed m (d + 1) k (.jump toEnd) p) (lands : toElse.toNat = k + 1) (leads : toEnd.toNat = stop)
    (first : Stretch m.chunk.code depth (j + 1) k yes) (second : Stretch m.chunk.code depth (k + 1) stop no)
    (tested : depth j = d + 1) (chosen : depth (j + 1) = d) (left : depth k = d + 1)
    (skipped : depth (k + 1) = d) (joined : depth stop = d + 1) (deep : d < yes) :
    Stretch m.chunk.code depth j stop (max yes no) := by
  have order := first.order
  have order' := second.order
  have past : Leads m.chunk.code j (k + 1) := ⟨_, skip.code, by simp [Opcode.successors, lands]⟩
  have into : Leads m.chunk.code j (j + 1) := ⟨_, skip.code, by simp [Opcode.successors]⟩
  refine ⟨by omega, fun n low high => ?_, ?_, fun n low high => ?_⟩
  · by_cases here : n = j
    · subst here
      refine ⟨_, skip.code, by simp [Opcode.stackEffect, tested], nofun, ?_, ?_⟩
      · simp only [tested, Opcode.depthAfter, Opcode.stackEffect]
        omega
      · simp [Opcode.successors, Opcode.depthAfter, Opcode.stackEffect, tested, chosen, lands, skipped]
        omega
    by_cases inside : n < k
    · obtain ⟨instruction, found, consistent⟩ := first.each n (by omega) inside
      exact ⟨instruction, found, consistent.weaken (by omega) (Nat.le_max_left _ _)⟩
    by_cases last : n = k
    · subst last
      refine ⟨_, leave.code, Nat.zero_le _, nofun, ?_, ?_⟩
      · simp only [left, Opcode.depthAfter, Opcode.stackEffect]
        omega
      · simp [Opcode.successors, Opcode.depthAfter, Opcode.stackEffect, left, leads, joined]
        omega
    obtain ⟨instruction, found, consistent⟩ := second.each n (by omega) high
    exact ⟨instruction, found, consistent.weaken (Nat.le_refl _) (Nat.le_max_right _ _)⟩
  · rcases Nat.le_total yes no with low | low
    · rw [Nat.max_eq_right low]
      refine second.attained.imp id fun ⟨n, instruction, from_k, high, rest⟩ => ?_
      exact ⟨n, instruction, by omega, high, rest⟩
    · rw [Nat.max_eq_left low]
      refine first.attained.imp id fun ⟨n, instruction, from_j, high, rest⟩ => ?_
      exact ⟨n, instruction, by omega, by omega, rest⟩
  · by_cases here : n = j
    · exact here ▸ .here
    by_cases inside : n ≤ k
    · exact (Path.here.next into).trans (first.reached n (by omega) inside)
    · exact (Path.here.next past).trans (second.reached n (by omega) high)

theorem Spans.arms (skip : Placed m (d + 1) j (.jumpIfFalse toElse) p)
    (first : Spans m.chunk.code (j + 1) k d (d + 1) yes) (leave : Placed m (d + 1) k (.jump toEnd) p)
    (lands : toElse.toNat = k + 1) (second : Spans m.chunk.code (k + 1) stop d (d + 1) no)
    (leads : toEnd.toNat = stop) (deep : d < yes) :
    Spans m.chunk.code j stop (d + 1) (d + 1) (max yes no) := by
  obtain ⟨depth, chosen, left, first⟩ := first
  obtain ⟨depth', skipped, joined, second⟩ := second
  let both (n : Nat) : Nat := if n ≤ j then d + 1 else if n ≤ k then depth n else depth' n
  have order := first.order
  have order' := second.order
  have test : both j = d + 1 := if_pos (Nat.le_refl j)
  have low (n : Nat) (behind : j + 1 ≤ n) (inside : n ≤ k) : both n = depth n :=
    (if_neg (by omega)).trans (if_pos inside)
  have high (n : Nat) (behind : k + 1 ≤ n) : both n = depth' n :=
    (if_neg (by omega)).trans (if_neg (by omega))
  refine ⟨both, test, (high stop order').trans joined, ?_⟩
  exact .arms skip leave lands leads (first.congr low) (second.congr fun n behind _ => high n behind) test
    ((low _ (Nat.le_refl _) order).trans chosen) ((low _ order (Nat.le_refl _)).trans left)
    ((high _ (Nat.le_refl _)).trans skipped) ((high _ order').trans joined) deep

end Arms

section Laid

open Expression

variable {r : Resolution} {m : Method}

theorem Called.spans {depth i id argc : Nat} {p : Position} {callee : Callee}
    (called : Called r m depth i id argc p callee) :
    Spans m.chunk.code i (i + 1) (depth + argc) (depth + 1) (depth + 1) := by
  have count : (UInt8.ofNat argc).toNat = argc := UInt8.toNat_ofNat_of_lt' (Nat.lt_succ_of_le called.few)
  have after : (Generator.callOpcode callee (UInt8.ofNat argc)).depthAfter (depth + argc) = depth + 1 := by
    cases callee <;>
      simp only [Generator.callOpcode, Opcode.depthAfter, Opcode.stackEffect, count, Nat.add_sub_cancel]
  have spans := Spans.single called.placed (by cases callee <;> rfl)
  rwa [after] at spans

-- Stages are called at one depth, the least that code for a value comes to.
theorem LaidStages.spans {stages : List Stage} {depth i stop : Nat}
    (laid : LaidStages r m stages depth i stop) :
    ∃ top ≤ depth + 1, Spans m.chunk.code i stop (depth + 1) (depth + 1) top := by
  induction laid with
  | nil => exact ⟨0, Nat.zero_le _, .nil _ _ _⟩
  | cons called _ ih =>
      obtain ⟨top, low, spans⟩ := ih
      exact ⟨_, Nat.max_le.mpr ⟨Nat.le_refl _, low⟩, called.spans.append spans⟩

mutual

theorem Laid.spans : ∀ {e : Expression} {depth i stop : Nat}, Laid r m e depth i stop →
    Spans m.chunk.code i stop depth (depth + 1) (e.top depth)
  | _, _, _, _, .constant pushes placed => by
      cases pushes <;> exact .single placed rfl
  | _, _, _, _, .symbol _ _ loads placed => by
      cases loads <;> exact .single placed rfl
  | .define _ value _, depth, _, _, .define inner dup _ stores store => by
      have both := inner.spans.append (.single dup rfl)
      have same : max (max (value.top depth) (depth + 2)) (depth + 1) = max (value.top depth) (depth + 2) := by
        omega
      cases stores <;> exact (both.append (.single store rfl)).congr same
  | _, _, _, _, .function _ _ placed => .single placed rfl
  | .bind _ bound body _, depth, _, _, .bind _ outer store inner => by
      refine ((outer.spans.append (.single store rfl)).append inner.spans).congr ?_
      have deep := bound.lt_top depth
      simp only [top, Opcode.depthAfter, Opcode.stackEffect]
      omega
  | .branch condition yes no _, depth, _, _, .branch test skip chosen leave lands other leads =>
      test.spans.append (.arms skip chosen.spans leave lands other.spans leads (yes.lt_top depth))
  | _, _, _, _, .block body => body.spans
  | _, _, _, _, .cond clauses => clauses.spans
  | _, _, _, _, .call args called => (args.spans.append called.spans).congr (Nat.max_comm _ _)
  | .compose first _ _, depth, _, _, .compose start stages => by
      obtain ⟨_, low, spans⟩ := stages.spans
      have deep := first.lt_top depth
      exact (start.spans.append spans).congr (Nat.max_eq_left (Nat.le_trans low deep))

theorem LaidArguments.spans : ∀ {es : List Expression} {depth i stop : Nat},
    LaidArguments r m es depth i stop →
    Spans m.chunk.code i stop depth (depth + es.length) (topArguments es depth)
  | _, _, _, _, .nil => .nil _ _ _
  | _ :: rest, depth, _, _, .cons first others => by
      have spans := first.spans.append others.spans
      rwa [Nat.add_right_comm] at spans

theorem LaidSequence.spans : ∀ {p : Position} {es : List Expression} {depth i stop : Nat},
    LaidSequence r m p es depth i stop →
    Spans m.chunk.code i stop depth (depth + 1) (max (depth + 1) (topAll es depth))
  | _, _, _, _, _, .nil placed => .single placed rfl
  | _, e :: rest, depth, _, _, .cons first others => by
      refine (first.spans.append others.spans).congr ?_
      have deep := e.lt_top depth
      simp only [topAll]
      omega

theorem LaidFollowing.spans : ∀ {es : List Expression} {depth i stop : Nat},
    LaidFollowing r m es depth i stop →
    Spans m.chunk.code i stop (depth + 1) (depth + 1) (topAll es depth)
  | _, _, _, _, .nil => .nil _ _ _
  | e :: rest, depth, _, _, .cons drop first others => by
      refine (((Spans.single drop rfl).append first.spans).append others.spans).congr ?_
      have deep := e.lt_top depth
      simp only [topAll, Opcode.depthAfter, Opcode.stackEffect]
      omega

theorem LaidClauses.spans : ∀ {p : Position} {clauses : List (Expression × Expression)}
    {depth i stop : Nat}, LaidClauses r m p clauses depth i stop →
    Spans m.chunk.code i stop depth (depth + 1) (max (depth + 1) (topClauses clauses depth))
  | _, _, _, _, _, .nil placed => .single placed rfl
  | _, (test, consequent) :: rest, depth, _, _, .cons tested skip chosen leave lands others leads => by
      have arms := Spans.arms skip chosen.spans leave lands others.spans leads (consequent.lt_top depth)
      refine (tested.spans.append arms).congr ?_
      have deep := test.lt_top depth
      simp only [topClauses]
      omega

end

end Laid

end LispMachine
