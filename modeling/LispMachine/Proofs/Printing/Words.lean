import LispMachine.Proofs.Grammar
import LispMachine.Proofs.Printing.Literals

set_option autoImplicit false

namespace LispMachine

open Lexer

namespace Word

def leftParen : Word := ⟨.leftParen, "(", none⟩

def rightParen : Word := ⟨.rightParen, ")", none⟩

def leftBracket : Word := ⟨.leftBracket, "[", none⟩

def rightBracket : Word := ⟨.rightBracket, "]", none⟩

theorem delimits_leftParen : Delimits leftParen := .of_delimiter? (c := '(') rfl

theorem delimits_rightParen : Delimits rightParen := .of_delimiter? (c := ')') rfl

theorem delimits_leftBracket : Delimits leftBracket := .of_delimiter? (c := '[') rfl

theorem delimits_rightBracket : Delimits rightBracket := .of_delimiter? (c := ']') rfl

def form (head : Word) (inside : List Word) : List Word := leftParen :: (head :: inside ++ [rightParen])

end Word

namespace Expression

mutual

def words : Expression → List Word
  | .constant value _ => [value.word]
  | .symbol name _ => [.ident name]
  | .define name value _ => Word.form ⟨.define, "def", none⟩ (.ident name :: value.words)
  | .function name params body _ =>
      Word.form ⟨.function, "defn", none⟩
        (.ident name :: (.leftBracket :: (params.map .ident ++ [.rightBracket]) ++ body.words))
  | .bind name bound body _ => Word.form ⟨.bind, "let", none⟩ (.ident name :: (bound.words ++ body.words))
  | .branch condition yes no _ =>
      Word.form ⟨.branch, "if", none⟩ (condition.words ++ (yes.words ++ no.words))
  | .block body _ => Word.form ⟨.block, "do", none⟩ (wordsAll body)
  | .cond clauses _ => Word.form ⟨.cond, "cond", none⟩ (wordsClauses clauses)
  | .call callee args _ => Word.form (.ident callee) (wordsAll args)
  | .compose first stages _ =>
      Word.form ⟨.compose, "->", none⟩ (first.words ++ stages.map fun stage => .ident stage.callee)

def wordsAll : List Expression → List Word
  | [] => []
  | e :: rest => e.words ++ wordsAll rest

def wordsClauses : List (Expression × Expression) → List Word
  | [] => []
  | (test, consequent) :: rest => test.words ++ (consequent.words ++ wordsClauses rest)

end

mutual

def doubles : Expression → List Double
  | .constant value _ => value.doubles
  | .symbol _ _ => []
  | .define _ value _ => value.doubles
  | .function _ _ body _ => body.doubles
  | .bind _ bound body _ => bound.doubles ++ body.doubles
  | .branch condition yes no _ => condition.doubles ++ (yes.doubles ++ no.doubles)
  | .block body _ => doublesAll body
  | .cond clauses _ => doublesClauses clauses
  | .call _ args _ => doublesAll args
  | .compose first _ _ => first.doubles

def doublesAll : List Expression → List Double
  | [] => []
  | e :: rest => e.doubles ++ doublesAll rest

def doublesClauses : List (Expression × Expression) → List Double
  | [] => []
  | (test, consequent) :: rest => test.doubles ++ (consequent.doubles ++ doublesClauses rest)

end

theorem wordsClauses_eq (clauses : List (Expression × Expression)) :
    wordsClauses clauses = wordsAll (clauses.flatMap fun clause => [clause.1, clause.2]) := by
  induction clauses with
  | nil => rfl
  | cons clause rest ih => simp [wordsClauses, wordsAll, ih]

theorem doublesClauses_eq (clauses : List (Expression × Expression)) :
    doublesClauses clauses = doublesAll (clauses.flatMap fun clause => [clause.1, clause.2]) := by
  induction clauses with
  | nil => rfl
  | cons clause rest ih => simp [doublesClauses, doublesAll, ih]

end Expression

def Prints (print : String → String) (words : List Word) : Prop :=
  ∀ more text, Written more text → Stops text →
    ∃ front, Written (words ++ more) front ∧ ∀ out, (print out).toList ++ text = out.toList ++ front

def Trails (print : String → String) (words : List Word) : Prop :=
  ∀ more text, Written more text → Stops text →
    ∃ front, Stops front ∧ Written (words ++ more) front ∧
      ∀ out, (print out).toList ++ text = out.toList ++ front

section Prints

variable {print next : String → String} {words others : List Word}

theorem Prints.congr (prints : Prints print words) (same : ∀ out, next out = print out) :
    Prints next words := by
  intro more text written stops
  obtain ⟨front, written, printed⟩ := prints more text written stops
  exact ⟨front, written, fun out => same out ▸ printed out⟩

theorem Prints.word {w : Word} (read : ∀ behind, Stops behind → ReadBefore behind w) :
    Prints (· ++ w.text) [w] := by
  intro more text written stops
  exact ⟨_, .here (read text stops) written, by simp⟩

theorem Prints.run {w : Word} (run : IsRun w) : Prints (· ++ w.text) [w] :=
  .word fun _ => run.readBefore

theorem Trails.nil : Trails (fun out => out) [] :=
  fun _ text written stops => ⟨text, stops, written, fun _ => rfl⟩

theorem Trails.space (prints : Prints print words) : Trails (fun out => print (out ++ " ")) words := by
  intro more text written stops
  obtain ⟨front, written, printed⟩ := prints more text written stops
  exact ⟨' ' :: front, stops_space front, written.space, by simp [printed]⟩

theorem Trails.append (first : Trails print words) (second : Trails next others) :
    Trails (fun out => next (print out)) (words ++ others) := by
  intro more text written stops
  obtain ⟨behind, stops, written, later⟩ := second more text written stops
  obtain ⟨front, stops, written, earlier⟩ := first _ behind written stops
  exact ⟨front, stops, List.append_assoc _ _ _ ▸ written, fun out => by rw [later, earlier]⟩

theorem Prints.trail (first : Prints print words) (second : Trails next others) :
    Prints (fun out => next (print out)) (words ++ others) := by
  intro more text written stops
  obtain ⟨behind, stops, written, later⟩ := second more text written stops
  obtain ⟨front, written, earlier⟩ := first _ behind written stops
  exact ⟨front, List.append_assoc _ _ _ ▸ written, fun out => by rw [later, earlier]⟩

theorem Prints.enclosed {opened closed : Word} (opens : Delimits opened) (closes : Delimits closed)
    (inside : Prints print words) :
    Prints (fun out => print (out ++ opened.text) ++ closed.text) (opened :: (words ++ [closed])) := by
  intro more text written stops
  obtain ⟨behind, written, printed⟩ := inside _ _ (.here (closes.read text) written) (closes.stops text)
  have whole : Written (opened :: (words ++ [closed]) ++ more) (opened.text.toList ++ behind) := by
    rw [List.cons_append, List.append_assoc]
    exact .here (opens.read behind) written
  exact ⟨_, whole, fun out => by simp [printed]⟩

theorem Lexer.IsRun.form {head : Word} (run : IsRun head) (inside : Trails print words) :
    Prints (fun out => print (out ++ "(" ++ head.text) ++ ")") (Word.form head words) := by
  have items := (Prints.run run).trail inside
  have whole := Prints.enclosed Word.delimits_leftParen Word.delimits_rightParen items
  exact whole

theorem Lexer.IsRun.spacedForm {head : Word} (run : IsRun head) {opened : String}
    (spelled : opened = "(" ++ head.text ++ " ") (first : Prints print words) (rest : Trails next others) :
    Prints (fun out => next (print (out ++ opened)) ++ ")") (Word.form head (words ++ others)) := by
  refine (run.form ((Trails.space first).append rest)).congr fun out => ?_
  rw [spelled, String.append_assoc, String.append_assoc, String.append_assoc]

theorem Prints.names {params : List String} (runs : ∀ name ∈ params, IsRun (.ident name)) :
    Prints (fun out => out ++ " ".intercalate params) (params.map Word.ident) := by
  induction params with
  | nil => exact fun more text written _ => ⟨text, written, by simp⟩
  | cons name rest ih =>
      obtain ⟨first, others⟩ := List.forall_mem_cons.mp runs
      cases rest with
      | nil => exact (Prints.run first).congr fun out => by simp [Word.ident]
      | cons name' rest =>
          refine ((Prints.run first).trail (.space (ih others))).congr fun out => ?_
          simp [String.intercalate_cons_cons, String.append_assoc, Word.ident]

theorem Prints.params {params : List String} (runs : ∀ name ∈ params, IsRun (.ident name)) :
    Prints (fun out => out ++ "[" ++ " ".intercalate params ++ "]")
      (Word.leftBracket :: (params.map Word.ident ++ [Word.rightBracket])) := by
  have whole := Prints.enclosed Word.delimits_leftBracket Word.delimits_rightBracket (Prints.names runs)
  exact whole

end Prints

namespace Trails

open Expression

theorem stages {stages : List Stage} (runs : ∀ stage ∈ stages, IsRun (.ident stage.callee)) :
    Trails (fun out => stages.foldl (fun out stage => out ++ " " ++ stage.callee) out)
      (stages.map fun stage => .ident stage.callee) := by
  induction stages with
  | nil => exact .nil
  | cons stage rest ih =>
      obtain ⟨first, others⟩ := List.forall_mem_cons.mp runs
      have printed := (Trails.space (Prints.run first)).append (ih others)
      exact printed

theorem sources {es : List Expression} (each : ∀ e ∈ es, Prints (sourceAfter · e) e.words) :
    Trails (sourcesAfter · es) (wordsAll es) := by
  induction es with
  | nil => exact .nil
  | cons e rest ih =>
      obtain ⟨first, others⟩ := List.forall_mem_cons.mp each
      have printed := (Trails.space first).append (ih others)
      exact printed

theorem clauses {clauses : List (Expression × Expression)}
    (each : ∀ clause ∈ clauses, Prints (sourceAfter · clause.1) clause.1.words ∧
      Prints (sourceAfter · clause.2) clause.2.words) :
    Trails (clausesAfter · clauses) (wordsClauses clauses) := by
  induction clauses with
  | nil => exact .nil
  | cons clause rest ih =>
      obtain ⟨⟨test, consequent⟩, others⟩ := List.forall_mem_cons.mp each
      have printed := (Trails.space test).append ((Trails.space consequent).append (ih others))
      exact printed

end Trails

open Expression

theorem DerivesStages.runs {tokens : List Token} {stages : List Stage} (derives : DerivesStages tokens stages)
    (runs : ∀ t ∈ tokens, t.lexeme = .ident → IsRun (.ident t.text)) :
    ∀ stage ∈ stages, IsRun (.ident stage.callee) := by
  induction derives with
  | nil => simp
  | name ident _ ih => 
      obtain ⟨first, others⟩ := List.forall_mem_cons.mp runs
      exact List.forall_mem_cons.mpr ⟨first ident, ih others⟩
  | form _ ident _ _ ih => 
      simp only [List.forall_mem_cons] at runs ⊢
      exact ⟨runs.2.1 ident, ih runs.2.2.2⟩

mutual

theorem Derives.prints {tokens : List Token} {e : Expression} :
    Derives tokens e → (∀ t ∈ tokens, t.lexeme = .ident → IsRun (.ident t.text)) →
      (∀ d ∈ e.doubles, d.ReadsBack) → Prints (sourceAfter · e) e.words
  | @Derives.literal _ value _, _, back => by
      have word := Prints.word fun behind => value.readBefore_word back
      rwa [value.text_word] at word
  | .symbol ident, runs, _ => .run (runs _ (.head _) ident)
  | .form _ inside _, runs, back => inside.prints (fun t member => runs t (by simp [member])) back

theorem DerivesForm.prints {p : Position} {tokens : List Token} {e : Expression} :
    DerivesForm p tokens e → (∀ t ∈ tokens, t.lexeme = .ident → IsRun (.ident t.text)) →
      (∀ d ∈ e.doubles, d.ReadsBack) → Prints (sourceAfter · e) e.words
  | @DerivesForm.define _ _ _ _ value _ name items, runs, back => by
      simp only [List.forall_mem_cons] at runs
      have values := items.prints runs.2.2 (by simpa [doubles, doublesAll] using back)
      have head : IsRun ⟨.define, "def", none⟩ := isRun_reserved rfl
      have form := head.spacedForm rfl (.run (runs.2.1 name)) (.space (values value (.head _)))
      exact form
  | @DerivesForm.function _ _ _ _ params _ _ body _ name _ idents _ items, runs, back => by
      simp only [List.forall_mem_cons, List.forall_mem_append] at runs
      obtain ⟨_, own, _, names, _, inside⟩ := runs
      have values := items.prints inside (by simpa [doubles, doublesAll] using back)
      have params : ∀ param ∈ params.map Token.text, IsRun (.ident param) := by
        refine List.forall_mem_map.mpr fun t member => ?_
        exact names t member (idents t member)
      have bodies := (Trails.space (Prints.params params)).append (.space (values body (.head _)))
      have head : IsRun ⟨.function, "defn", none⟩ := isRun_reserved rfl
      have spelled : "(defn " = "(" ++ "defn" ++ " " := rfl
      have form := head.spacedForm spelled (.run (own name)) bodies
      refine form.congr fun out => congrArg (fun front => sourceAfter front body ++ ")") ?_
      have opened : " [" = " " ++ "[" := rfl
      have closed : "] " = "]" ++ " " := rfl
      simp only [opened, closed, String.append_assoc, Word.ident]
  | @DerivesForm.bind _ _ _ _ bound body _ name items, runs, back => by
      simp only [List.forall_mem_cons] at runs
      have values := items.prints runs.2.2 (by simpa [doubles, doublesAll] using back)
      have rest := (Trails.space (values bound (.head _))).append (.space (values body (.tail _ (.head _))))
      have head : IsRun ⟨.bind, "let", none⟩ := isRun_reserved rfl
      have form := head.spacedForm rfl (.run (runs.2.1 name)) rest
      exact form
  | @DerivesForm.branch _ _ _ condition yes no _ items, runs, back => by
      simp only [List.forall_mem_cons] at runs
      have values := items.prints runs.2 (by simpa [doubles, doublesAll] using back)
      simp only [List.forall_mem_cons] at values
      have rest := (Trails.space values.2.1).append (.space values.2.2.1)
      have head : IsRun ⟨.branch, "if", none⟩ := isRun_reserved rfl
      have form := head.spacedForm rfl values.1 rest
      exact form
  | @DerivesForm.block _ _ _ body _ items, runs, back => by
      simp only [List.forall_mem_cons] at runs
      have head : IsRun ⟨.block, "do", none⟩ := isRun_reserved rfl
      have form := head.form (.sources (items.prints runs.2 back))
      refine form.congr fun out => congrArg (fun front => sourcesAfter front body ++ ")") ?_
      rw [String.append_assoc]
      rfl
  | @DerivesForm.cond _ _ _ clauses _ items, runs, back => by
      simp only [List.forall_mem_cons] at runs
      rw [doubles, doublesClauses_eq] at back
      have values := items.prints runs.2 back
      have head : IsRun ⟨.cond, "cond", none⟩ := isRun_reserved rfl
      have pairs : Trails (clausesAfter · clauses) (wordsClauses clauses) := .clauses fun clause member =>
        ⟨values _ (List.mem_flatMap.mpr ⟨clause, member, by simp⟩),
          values _ (List.mem_flatMap.mpr ⟨clause, member, by simp⟩)⟩
      have form := head.form pairs
      refine form.congr fun out => congrArg (fun front => clausesAfter front clauses ++ ")") ?_
      rw [String.append_assoc]
      rfl
  | .call name items, runs, back => by
      simp only [List.forall_mem_cons] at runs
      have form := (runs.1 name).form (.sources (items.prints runs.2 back))
      exact form
  | .compose _ first stages _, runs, back => by
      simp only [List.forall_mem_cons, List.forall_mem_append] at runs
      have head : IsRun ⟨.compose, "->", none⟩ := isRun_reserved rfl
      have form := head.spacedForm rfl (first.prints runs.2.1 back) (.stages (stages.runs runs.2.2))
      exact form

theorem DerivesAll.prints {tokens : List Token} {es : List Expression} :
    DerivesAll tokens es → (∀ t ∈ tokens, t.lexeme = .ident → IsRun (.ident t.text)) →
      (∀ d ∈ doublesAll es, d.ReadsBack) → ∀ e ∈ es, Prints (sourceAfter · e) e.words
  | .nil, _, _ => by simp
  | .cons first rest, runs, back => by
      obtain ⟨here, later⟩ := List.forall_mem_append.mp runs
      obtain ⟨own, others⟩ := List.forall_mem_append.mp back
      exact List.forall_mem_cons.mpr ⟨first.prints here own, rest.prints later others⟩

end

end LispMachine
