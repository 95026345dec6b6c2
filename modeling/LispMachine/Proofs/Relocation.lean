import Mathlib.Logic.Equiv.Basic
import LispMachine.Proofs.Expression.Nodes
import LispMachine.Proofs.Grammar.Parsing
import LispMachine.Proofs.Token.Words

set_option autoImplicit false

namespace LispMachine

namespace Token

def relocate (f : Position → Position) (t : Token) : Token := { t with position := f t.position }

@[simp] theorem position_relocate (f : Position → Position) (t : Token) :
    (t.relocate f).position = f t.position := rfl

theorem Spells.relocate (f : Position → Position) {t : Token} {value : Literal} (spells : t.Spells value) :
    (t.relocate f).Spells value := by
  cases spells with
  | long lexeme literal => exact .long lexeme literal
  | double lexeme literal => exact .double lexeme literal
  | str lexeme literal => exact .str lexeme literal
  | yes lexeme => exact .yes lexeme
  | no lexeme => exact .no lexeme
  | nil lexeme => exact .nil lexeme

end Token

def Stage.relocate (f : Position → Position) (s : Stage) : Stage := { s with position := f s.position }

namespace Expression

mutual

def relocate (f : Position → Position) : Expression → Expression
  | .constant value p => .constant value (f p)
  | .symbol name p => .symbol name (f p)
  | .define name value p => .define name (value.relocate f) (f p)
  | .function name params body p => .function name params (body.relocate f) (f p)
  | .bind name bound body p => .bind name (bound.relocate f) (body.relocate f) (f p)
  | .branch condition yes no p => .branch (condition.relocate f) (yes.relocate f) (no.relocate f) (f p)
  | .block body p => .block (relocateAll f body) (f p)
  | .cond clauses p => .cond (relocateClauses f clauses) (f p)
  | .call name args p => .call name (relocateAll f args) (f p)
  | .compose first stages p => .compose (first.relocate f) (stages.map (Stage.relocate f)) (f p)

def relocateAll (f : Position → Position) : List Expression → List Expression
  | [] => []
  | e :: rest => e.relocate f :: relocateAll f rest

def relocateClauses (f : Position → Position) :
    List (Expression × Expression) → List (Expression × Expression)
  | [] => []
  | (test, consequent) :: rest => (test.relocate f, consequent.relocate f) :: relocateClauses f rest

end

variable (f : Position → Position)

theorem relocateAll_eq_map (es : List Expression) : relocateAll f es = es.map (relocate f) := by
  induction es with
  | nil => rfl
  | cons e rest ih => rw [relocateAll, ih, List.map_cons]

theorem relocateClauses_eq_map (clauses : List (Expression × Expression)) :
    relocateClauses f clauses = clauses.map fun clause => (clause.1.relocate f, clause.2.relocate f) := by
  induction clauses with
  | nil => rfl
  | cons clause rest ih => rw [relocateClauses, ih, List.map_cons]

@[simp] theorem length_relocateAll (es : List Expression) : (relocateAll f es).length = es.length := by
  rw [relocateAll_eq_map, List.length_map]

theorem relocateAll_flatMap (clauses : List (Expression × Expression)) :
    relocateAll f (clauses.flatMap fun clause => [clause.1, clause.2]) =
      (relocateClauses f clauses).flatMap fun clause => [clause.1, clause.2] := by
  induction clauses with
  | nil => rfl
  | cons clause rest ih => simp [relocateClauses, relocateAll, ih]

@[simp] theorem position_relocate (e : Expression) : (e.relocate f).position = f e.position := by
  cases e <;> rfl

def unplaced (e : Expression) : Expression := e.relocate fun _ => .start

end Expression

open Expression

theorem DerivesStages.relocate (f : Position → Position) {tokens : List Token} {stages : List Stage}
    (derives : DerivesStages tokens stages) :
    DerivesStages (tokens.map (Token.relocate f)) (stages.map (Stage.relocate f)) := by
  induction derives with
  | nil => exact .nil
  | name ident _ ih => exact .name ident ih
  | form opened ident closed _ ih => exact .form opened ident closed ih

mutual

theorem Derives.relocate (f : Position → Position) {tokens : List Token} {e : Expression} :
    Derives tokens e → Derives (tokens.map (Token.relocate f)) (e.relocate f)
  | .literal spells => .literal (spells.relocate f)
  | .symbol ident => .symbol ident
  | .form opened inside closed => by
      rw [List.map_cons, List.map_append]
      exact .form opened (inside.relocate f) closed

theorem DerivesForm.relocate (f : Position → Position) {p : Position} {tokens : List Token}
    {e : Expression} :
    DerivesForm p tokens e → DerivesForm (f p) (tokens.map (Token.relocate f)) (e.relocate f)
  | .define head name items => .define head name (items.relocate f)
  | @DerivesForm.function _ _ _ _ params _ _ _ head name opened idents closed items => by
      have same : (params.map (Token.relocate f)).map Token.text = params.map Token.text := by
        rw [List.map_map]
        rfl
      rw [Expression.relocate, ← same, List.map_cons, List.map_cons, List.map_cons, List.map_append,
        List.map_cons]
      refine .function head name opened (fun t member => ?_) closed (items.relocate f)
      obtain ⟨param, listed, rfl⟩ := List.mem_map.mp member
      exact idents param listed
  | .bind head name items => .bind head name (items.relocate f)
  | .branch head items => .branch head (items.relocate f)
  | .block head items => .block head (items.relocate f)
  | .cond head items => .cond head (relocateAll_flatMap f _ ▸ items.relocate f)
  | .call head items => .call head (items.relocate f)
  | .compose head first stages steps => by
      rw [List.map_cons, List.map_append]
      exact .compose head (first.relocate f) (stages.relocate f) (by simpa using steps)

theorem DerivesAll.relocate (f : Position → Position) {tokens : List Token} {es : List Expression} :
    DerivesAll tokens es → DerivesAll (tokens.map (Token.relocate f)) (relocateAll f es)
  | .nil => .nil
  | .cons first rest => by
      rw [List.map_append]
      exact .cons (first.relocate f) (rest.relocate f)

end

theorem Expression.Admitted.relocate (f : Position → Position) {e : Expression} {depth : Nat}
    (admitted : e.Admitted depth) : (e.relocate f).Admitted depth := by
  induction admitted with
  | constant => exact .constant
  | symbol => exact .symbol
  | define shallow _ value => exact .define shallow value
  | function distinct few _ body => exact .function distinct few body
  | bind shallow _ _ bound body => exact .bind shallow bound body
  | branch shallow _ _ _ condition yes no => exact .branch shallow condition yes no
  | block shallow _ body =>
      refine .block shallow ?_
      simpa [relocateAll_eq_map] using body
  | cond shallow _ _ tests consequents =>
      simp only [relocateClauses_eq_map, Expression.relocate]
      refine .cond shallow ?_ ?_
      · exact List.forall_mem_map.mpr tests
      · exact List.forall_mem_map.mpr consequents
  | call shallow few _ args =>
      refine .call shallow (by simpa using few) ?_
      simpa [relocateAll_eq_map] using args
  | compose shallow _ first => exact .compose shallow first

theorem Expression.Admitted.of_relocate {f : Position → Position} {e : Expression} {depth : Nat}
    (admitted : (e.relocate f).Admitted depth) : e.Admitted depth := by
  generalize same : e.relocate f = moved at admitted
  induction admitted generalizing e with
  | constant =>
      cases e <;> cases same
      exact .constant
  | symbol =>
      cases e <;> cases same
      exact .symbol
  | define shallow _ value =>
      cases e <;> cases same
      exact .define shallow (value rfl)
  | function distinct few _ body =>
      cases e <;> cases same
      exact .function distinct few (body rfl)
  | bind shallow _ _ bound body =>
      cases e <;> cases same
      exact .bind shallow (bound rfl) (body rfl)
  | branch shallow _ _ _ condition yes no =>
      cases e <;> cases same
      exact .branch shallow (condition rfl) (yes rfl) (no rfl)
  | block shallow _ body =>
      cases e <;> cases same
      rw [relocateAll_eq_map] at body
      exact .block shallow fun e listed => body _ (List.mem_map_of_mem listed) rfl
  | cond shallow _ _ tests consequents =>
      cases e <;> cases same
      rw [relocateClauses_eq_map] at tests consequents
      refine .cond shallow (fun clause listed => ?_) fun clause listed => ?_
      · exact tests _ (List.mem_map_of_mem listed) rfl
      · exact consequents _ (List.mem_map_of_mem listed) rfl
  | call shallow few _ args =>
      cases e <;> cases same
      rw [relocateAll_eq_map] at args few
      exact .call shallow (by simpa using few) fun e listed => args _ (List.mem_map_of_mem listed) rfl
  | compose shallow _ first =>
      cases e <;> cases same
      exact .compose shallow (first rfl)

theorem Expression.Admitted.of_unplaced {e e' : Expression} {depth : Nat} (admitted : e.Admitted depth)
    (same : e'.unplaced = e.unplaced) : e'.Admitted depth := by
  have moved : e.unplaced.Admitted depth := admitted.relocate _
  rw [← same] at moved
  exact .of_relocate moved

structure Relocation where
  move : Position → Position
  number : Nat → Nat
  offset_move (p : Position) : (move p).offset = number p.offset
  injective {m n : Nat} : number m = number n → m = n

namespace Relocation

def none : Relocation := ⟨fun p => p, fun n => n, fun _ => rfl, fun same => same⟩

/-- The relocation that also takes `p` to `q`. What went to the offset of `q` goes where `p` went. -/
def redirect (f : Relocation) (p q : Position) : Relocation where
  move r :=
    if r = p then q
    else { f.move r with offset := Equiv.swap (f.number p.offset) q.offset (f.number r.offset) }
  number n := Equiv.swap (f.number p.offset) q.offset (f.number n)
  offset_move r := by
    split
    next same => rw [same, Equiv.swap_apply_left]
    next => rfl
  injective same := f.injective ((Equiv.swap _ _).injective same)

@[simp] theorem redirect_self (f : Relocation) (p q : Position) : (f.redirect p q).move p = q := if_pos rfl

theorem redirect_of_ne (f : Relocation) {p q r : Position} (other : r.offset ≠ p.offset)
    (free : (f.move r).offset ≠ q.offset) : (f.redirect p q).move r = f.move r := by
  have different : r ≠ p := fun same => other (congrArg Position.offset same)
  rw [offset_move] at free
  have kept : Equiv.swap (f.number p.offset) q.offset (f.number r.offset) = f.number r.offset :=
    Equiv.swap_apply_of_ne_of_ne (fun same => other (f.injective same)) free
  simp only [redirect, if_neg different, kept]
  rw [← offset_move]

theorem exists_map {ps qs : List Position} (length : ps.length = qs.length)
    (distinct : (ps.map Position.offset).Nodup) (distinct' : (qs.map Position.offset).Nodup) :
    ∃ f : Relocation, ps.map f.move = qs := by
  induction ps generalizing qs with
  | nil => exact ⟨none, by simpa using length.symm⟩
  | cons p ps ih =>
      obtain _ | ⟨q, qs⟩ := qs
      · cases length
      · rw [List.map_cons, List.nodup_cons] at distinct distinct'
        obtain ⟨f, moved⟩ := ih (by simpa using length) distinct.2 distinct'.2
        refine ⟨f.redirect p q, ?_⟩
        rw [List.map_cons, redirect_self, ← moved]
        refine congrArg (q :: ·) (List.map_congr_left fun r member => redirect_of_ne f ?_ ?_)
        · intro same
          exact distinct.1 (same ▸ List.mem_map_of_mem member)
        · intro same
          exact distinct'.1 (same ▸ List.mem_map_of_mem (moved ▸ List.mem_map_of_mem member))

end Relocation

theorem relocate_tokens {f : Position → Position} {tokens tokens' : List Token}
    (words : tokens.map Token.word = tokens'.map Token.word)
    (moved : (tokens.map Token.position).map f = tokens'.map Token.position) :
    tokens' = tokens.map (Token.relocate f) := by
  induction tokens generalizing tokens' with
  | nil => simpa using words.symm
  | cons t rest ih =>
      obtain _ | ⟨t', rest'⟩ := tokens'
      · cases words
      · obtain ⟨lexeme, text, literal, p⟩ := t
        obtain ⟨lexeme', text', literal', p'⟩ := t'
        simp only [List.map_cons, List.cons.injEq, Token.word, Word.mk.injEq] at words moved
        obtain ⟨⟨rfl, rfl, rfl⟩, words⟩ := words
        rw [List.map_cons, ih words moved.2, Token.relocate, moved.1]

theorem tokenize_relocate {text text' : String} {tokens tokens' : List Token}
    (lexed : tokenize text = .ok tokens) (lexed' : tokenize text' = .ok tokens')
    (words : tokens.map Token.word = tokens'.map Token.word) :
    ∃ f : Relocation, tokens' = tokens.map (Token.relocate f.move) := by
  have length : (tokens.map Token.position).length = (tokens'.map Token.position).length := by
    simpa using congrArg List.length words
  have distinct := tokenize_distinct lexed
  have distinct' := tokenize_distinct lexed'
  obtain ⟨f, moved⟩ := Relocation.exists_map length (by rwa [List.map_map]) (by rwa [List.map_map])
  exact ⟨f, relocate_tokens words moved⟩

namespace Parser

-- Only the block around the program has a position of its own.
theorem parseTokens_relocate (f : Position → Position) {tokens : List Token} {forms : List Expression}
    {p : Position} (parsed : parseTokens tokens = .ok (.block forms p)) :
    ∃ q, parseTokens (tokens.map (Token.relocate f)) = .ok (.block (relocateAll f forms) q) := by
  cases parseTokens_derives parsed with
  | block derives admitted =>
  have same : body (tokens.map (Token.relocate f)) = (body tokens).map (Token.relocate f) := by
    rw [body, List.takeWhile_map]
    rfl
  have admitted' : ∀ e ∈ relocateAll f forms, e.Admitted 0 := by
    rw [relocateAll_eq_map]
    exact List.forall_mem_map.mpr fun form listed => (admitted form listed).relocate f
  have derives' := DerivesProgram.block (derives.relocate f) admitted'
  exact ⟨_, parseTokens_of_derives (same ▸ derives')⟩

end Parser

end LispMachine
