import LispMachine.Proofs.Grammar.Accepting

set_option autoImplicit false

namespace LispMachine

theorem DerivesStages.append {tokens more : List Token} {stages others : List Stage}
    (first : DerivesStages tokens stages) (second : DerivesStages more others) :
    DerivesStages (tokens ++ more) (stages ++ others) := by
  induction first with
  | nil => exact second
  | name named _ ih => exact .name named ih
  | form opens named closes _ ih => exact .form opens named closes ih

theorem DerivesAll.append {tokens more : List Token} {es others : List Expression} :
    DerivesAll tokens es → DerivesAll more others → DerivesAll (tokens ++ more) (es ++ others)
  | .nil, second => second
  | .cons first rest, second => by
      rw [List.append_assoc]
      exact .cons first (rest.append second)

namespace Parser

def Form.Fits (depth : Nat) : Form → Prop
  | .function _ params => depth = 0 ∧ params.Nodup ∧ params.length ≤ maxArity
  | _ => True

inductive Hole.Reads (depth : Nat) : Hole → List Token → Prop
  | item {form opened p items heads tokens} : opened.lexeme = .leftParen → form.Headed heads →
      form.Fits depth → DerivesAll tokens items.reverse → (∀ e ∈ items, e.Admitted (depth + 1)) →
      Reads depth (.item form opened.position p items) (opened :: (heads ++ tokens))
  | initial {opened head p} : opened.lexeme = .leftParen → head.lexeme = .compose →
      Reads depth (.initial opened.position p) [opened, head]

inductive Focus.Reads (depth : Nat) : Focus → List Token → Prop
  | expression : Reads depth .expression []
  | head {opened} : opened.lexeme = .leftParen → Reads depth (.head opened.position) [opened]
  | name {binder opened head p} : opened.lexeme = .leftParen → head.lexeme = binder.lexeme →
      depth < maxNesting → (binder = .function → depth = 0) →
      Reads depth (.name binder opened.position p) [opened, head]
  | parameterList {opened head name p} : opened.lexeme = .leftParen → head.lexeme = .function →
      name.lexeme = .ident → depth = 0 →
      Reads depth (.parameterList name.text opened.position p) [opened, head, name]
  | parameters {opened head name bracket params p q} : opened.lexeme = .leftParen →
      head.lexeme = .function → name.lexeme = .ident → depth = 0 → bracket.lexeme = .leftBracket →
      (∀ t ∈ params, t.lexeme = .ident) → (params.map Token.text).Nodup →
      Reads depth (.parameters name.text opened.position p q (params.map Token.text).reverse)
        (opened :: head :: name :: bracket :: params)
  | stages {opened head first tokens stages more p} : opened.lexeme = .leftParen →
      head.lexeme = .compose → depth < maxNesting → Derives tokens first → first.Admitted (depth + 1) →
      DerivesStages more stages.reverse →
      Reads depth (.stages first opened.position p stages) (opened :: head :: (tokens ++ more))
  | stageHead {first opened p stages tokens t} : Reads depth (.stages first opened p stages) tokens →
      t.lexeme = .leftParen → Reads depth (.stageHead first opened p stages) (tokens ++ [t])
  | stageEnd {first opened p stages tokens t} : Reads depth (.stageHead first opened p stages) tokens →
      t.lexeme = .ident → Reads depth (.stageEnd first opened p stages ⟨t.text, t.position⟩) (tokens ++ [t])

inductive Open (forms : List Expression) : List Hole → List Token → Prop
  | top {tokens} : DerivesAll tokens forms.reverse → (∀ e ∈ forms, e.Admitted 0) → Open forms [] tokens
  | hole {hole outer tokens more} : Open forms outer tokens → outer.length < maxNesting →
      hole.Reads outer.length more → Open forms (hole :: outer) (tokens ++ more)

def State.Reads (s : State) (tokens : List Token) : Prop :=
  ∃ before own, tokens = before ++ own ∧ Open s.forms s.outer before ∧ s.focus.Reads s.outer.length own

theorem State.Reads.deliver {s : State} {tokens more : List Token} {e : Expression}
    (opened : Open s.forms s.outer tokens) (derives : Derives more e) (admitted : e.Admitted s.outer.length) :
    (s.deliver e).Reads (tokens ++ more) := by
  obtain ⟨forms, outer, focus⟩ := s
  cases opened with
  | top finished all =>
      refine ⟨tokens ++ more, [], by simp, .top ?_ (List.forall_mem_cons.mpr ⟨admitted, all⟩), .expression⟩
      simpa [State.deliver] using finished.append (.cons derives .nil)
  | @hole hole outer tokens own around room reads =>
      cases reads with
      | @item form open' p items heads inside opens headed fits derived all =>
          have derived : DerivesAll (inside ++ more) (e :: items).reverse := by
            simpa using derived.append (.cons derives .nil)
          have reads := Hole.Reads.item (p := p) opens headed fits derived
            (List.forall_mem_cons.mpr ⟨admitted, all⟩)
          exact ⟨_, [], by simp, .hole around room reads, .expression⟩
      | initial opens head =>
          refine ⟨tokens, _, List.append_assoc _ _ _, around, ?_⟩
          have none : DerivesStages [] ([] : List Stage).reverse := .nil
          simpa [State.deliver] using Focus.Reads.stages opens head room derives admitted none

theorem literal_spells {t : Token} {e : Expression} (read : literal t = .ok e) :
    ∃ value, e = .constant value t.position ∧ t.Spells value := by
  unfold literal at read
  split at read <;> cases read
  next kind found => exact ⟨_, rfl, .long kind found⟩
  next kind found => exact ⟨_, rfl, .double kind found⟩
  next kind found => exact ⟨_, rfl, .str kind found⟩

theorem startExpression_reads {s s' : State} {t : Token} {tokens : List Token}
    (opened : Open s.forms s.outer tokens) (read : startExpression s t = .ok s') :
    s'.Reads (tokens ++ [t]) := by
  unfold startExpression at read
  split at read
  next kind =>
    cases read
    exact ⟨tokens, [t], rfl, opened, .head kind⟩
  case h_2 | h_3 | h_4 =>
    cases found : literal t with
    | error d => simp [found, Except.map] at read
    | ok e =>
        simp only [found, Except.map] at read
        cases read
        obtain ⟨value, rfl, spells⟩ := literal_spells found
        exact .deliver opened (.literal spells) .constant
  case h_5 kind =>
    cases read
    exact .deliver opened (.literal (.yes kind)) .constant
  case h_6 kind =>
    cases read
    exact .deliver opened (.literal (.no kind)) .constant
  case h_7 kind =>
    cases read
    exact .deliver opened (.literal (.nil kind)) .constant
  case h_8 kind =>
    cases read
    exact .deliver opened (.symbol kind) .symbol
  all_goals cases read

theorem flatMap_pairs {items : List Expression} (even : items.length % 2 = 0) :
    (pairs items).flatMap (fun clause => [clause.1, clause.2]) = items := by
  fun_induction pairs items with
  | case1 test consequent rest ih =>
      rw [List.flatMap_cons, ih (by simp only [List.length_cons] at even; omega)]
      rfl
  | case2 items short =>
      cases items with
      | nil => rfl
      | cons test rest =>
          cases rest with
          | nil => cases even
          | cons consequent rest => exact (short test consequent rest rfl).elim

theorem Form.close_derives {form : Form} {heads tokens : List Token} {items : List Expression}
    {e : Expression} {depth : Nat} {opened p : Position} (headed : form.Headed heads)
    (fits : form.Fits depth) (room : depth < maxNesting) (derives : DerivesAll tokens items)
    (admitted : ∀ e ∈ items, e.Admitted (depth + 1)) (closed : form.close opened p items = .ok e) :
    DerivesForm opened (heads ++ tokens) e ∧ e.Admitted depth := by
  cases headed with
  | define kind named =>
      match items, closed with
      | [value], rfl => exact ⟨.define kind named derives, .define room (by simpa using admitted)⟩
  | function kind named opens names closes =>
      match items, closed with
      | [body], rfl =>
          obtain ⟨rfl, distinct, few⟩ := fits
          simp only [List.cons_append, List.append_assoc]
          exact ⟨.function kind named opens names closes derives,
            .function distinct few (by simpa using admitted)⟩
  | bind kind named =>
      match items, closed with
      | [bound, body], rfl =>
          simp only [List.forall_mem_cons] at admitted
          exact ⟨.bind kind named derives, .bind room admitted.1 admitted.2.1⟩
  | branch kind =>
      match items, closed with
      | [condition, yes, no], rfl =>
          simp only [List.forall_mem_cons] at admitted
          exact ⟨.branch kind derives, .branch room admitted.1 admitted.2.1 admitted.2.2.1⟩
  | block kind =>
      cases closed
      exact ⟨.block kind derives, .block room admitted⟩
  | cond kind =>
      simp only [Form.close] at closed
      split at closed <;> cases closed
      next even =>
        rw [← flatMap_pairs even] at derives admitted
        refine ⟨.cond kind derives, .cond room (fun clause listed => ?_) (fun clause listed => ?_)⟩
        · exact admitted clause.1 (List.mem_flatMap.mpr ⟨clause, listed, by simp⟩)
        · exact admitted clause.2 (List.mem_flatMap.mpr ⟨clause, listed, by simp⟩)
  | call kind =>
      simp only [Form.close] at closed
      split at closed <;> cases closed
      next few => exact ⟨.call kind derives, .call room few admitted⟩

theorem itemOrClose_reads {s s' : State} {t : Token} {tokens : List Token}
    (opened : Open s.forms s.outer tokens) (read : itemOrClose s t = .ok s') :
    s'.Reads (tokens ++ [t]) := by
  unfold itemOrClose at read
  split at read
  next => exact startExpression_reads opened read
  next =>
    split at read
    · cases read
    · exact startExpression_reads opened read
  next form position p items outer found =>
    split at read
    next closes =>
      obtain ⟨e, closed, delivered⟩ := bind_ok.mp read
      cases delivered
      rw [found] at opened
      cases opened with
      | hole around room reads =>
      cases reads with
      | item opens headed fits derives admitted =>
      obtain ⟨inside, admitted⟩ :=
        Form.close_derives headed fits room derives (by simpa using admitted) closed
      rw [List.append_assoc]
      exact State.Reads.deliver (s := { s with outer }) around (.form opens inside closes) admitted
    next => cases read
    next => cases read
    next => exact startExpression_reads opened read

section Forms

variable {s s' : State} {t : Token} {before own : List Token} {opened head : Position}

theorem State.Reads.enter {form : Form} {opened : Token} {p : Position} {heads : List Token}
    (around : Open s.forms s.outer before) (room : s.outer.length < maxNesting)
    (opens : opened.lexeme = .leftParen) (headed : form.Headed heads) (fits : form.Fits s.outer.length) :
    (s.enter (.item form opened.position p [])).Reads (before ++ opened :: heads) := by
  have reads : Hole.Reads s.outer.length (.item form opened.position p []) (opened :: (heads ++ [])) :=
    .item opens headed fits .nil (by simp)
  rw [List.append_nil] at reads
  exact ⟨_, [], by simp, .hole around room reads, .expression⟩

theorem formHead_reads (around : Open s.forms s.outer before)
    (focus : Focus.Reads s.outer.length (.head opened) own) (read : formHead s opened t = .ok s') :
    s'.Reads (before ++ (own ++ [t])) := by
  cases focus with
  | head opens =>
  unfold formHead at read
  split at read
  · cases read
  next place =>
    split at read
    · cases read
    next room =>
      have room := Nat.lt_of_not_le room
      split at read
      next kind =>
        cases read
        exact ⟨before, _, rfl, around, .name opens kind room (by simp)⟩
      next kind =>
        cases read
        refine ⟨before, _, rfl, around, .name opens kind room fun _ => ?_⟩
        simpa [kind] using place
      next kind =>
        cases read
        exact ⟨before, _, rfl, around, .name opens kind room (by simp)⟩
      next kind =>
        cases read
        exact .enter around room opens (.branch kind) trivial
      next kind =>
        cases read
        exact .enter around room opens (.block kind) trivial
      next kind =>
        cases read
        exact .enter around room opens (.cond kind) trivial
      next kind =>
        cases read
        exact ⟨_, [], by simp, .hole around room (.initial opens kind), .expression⟩
      next kind =>
        cases read
        exact .enter around room opens (.call kind) trivial
      all_goals cases read

theorem boundName_reads {binder : Binder} (around : Open s.forms s.outer before)
    (focus : Focus.Reads s.outer.length (.name binder opened head) own)
    (read : boundName s binder opened head t = .ok s') : s'.Reads (before ++ (own ++ [t])) := by
  cases focus with
  | name opens kind room place =>
  unfold boundName at read
  split at read
  next named =>
    cases binder with
    | define =>
        cases read
        exact .enter around room opens (.define kind named) trivial
    | function =>
        cases read
        exact ⟨before, _, rfl, around, .parameterList opens kind named (place rfl)⟩
    | bind =>
        cases read
        exact .enter around room opens (.bind kind named) trivial
  all_goals cases read

theorem listStart_reads {name : String} (around : Open s.forms s.outer before)
    (focus : Focus.Reads s.outer.length (.parameterList name opened head) own)
    (read : listStart s name opened head t = .ok s') : s'.Reads (before ++ (own ++ [t])) := by
  cases focus with
  | parameterList opens kind named place =>
  unfold listStart at read
  split at read <;> cases read
  next bracket =>
    have none : ∀ t ∈ ([] : List Token), t.lexeme = .ident := nofun
    exact ⟨before, _, rfl, around, .parameters opens kind named place bracket none .nil⟩

theorem parameter_reads {name : String} {bracket : Position} {params : List String}
    (around : Open s.forms s.outer before)
    (focus : Focus.Reads s.outer.length (.parameters name opened head bracket params) own)
    (read : parameter s name opened head bracket params t = .ok s') : s'.Reads (before ++ (own ++ [t])) := by
  cases focus with
  | @parameters paren keyword called opening params _ _ opens kind named place begins names distinct =>
  unfold parameter at read
  split at read
  next ident =>
    split at read <;> cases read
    next new =>
      have more : ((params ++ [t]).map Token.text).Nodup := by
        rw [List.map_append, List.nodup_append]
        refine ⟨distinct, by simp, fun a old b last same => ?_⟩
        cases List.mem_singleton.mp last
        rw [same] at old
        simp only [List.contains_reverse] at new
        exact new (by simpa using old)
      have all : ∀ p ∈ params ++ [t], p.lexeme = .ident := by
        simp only [List.mem_append, List.mem_singleton]
        rintro p (old | rfl)
        · exact names p old
        · exact ident
      have reads := Focus.Reads.parameters (p := head) (q := bracket) opens kind named place begins all more
      rw [List.map_append, List.reverse_append] at reads
      exact ⟨before, _, rfl, around, reads⟩
  next ends =>
    split at read <;> cases read
    next few =>
      rw [List.reverse_reverse]
      refine .enter around (place ▸ by decide) opens (.function kind named begins names ends) ?_
      exact ⟨place, distinct, by simpa using few⟩
  all_goals cases read

theorem stage_reads {first : Expression} {stages : List Stage} (around : Open s.forms s.outer before)
    (focus : Focus.Reads s.outer.length (.stages first opened head stages) own)
    (read : stage s first opened head stages t = .ok s') : s'.Reads (before ++ (own ++ [t])) := by
  have whole := focus
  cases focus with
  | stages opens kind room derives admitted staged =>
  unfold stage at read
  split at read
  next closes =>
    split at read <;> cases read
    next some =>
      have form : Derives _ (.compose first stages.reverse _) :=
        .form opens (.compose kind derives staged (by simpa using some)) closes
      exact .deliver around form (.compose room admitted)
  next named =>
    cases read
    have staged := staged.append (.name named .nil)
    rw [← List.reverse_cons] at staged
    have reads := Focus.Reads.stages (p := head) opens kind room derives admitted staged
    rw [← List.append_assoc] at reads
    exact ⟨before, _, rfl, around, reads⟩
  next paren =>
    cases read
    exact ⟨before, _, rfl, around, .stageHead whole paren⟩
  all_goals cases read

theorem stageName_reads {first : Expression} {stages : List Stage} (around : Open s.forms s.outer before)
    (focus : Focus.Reads s.outer.length (.stageHead first opened head stages) own)
    (read : stageName s first opened head stages t = .ok s') : s'.Reads (before ++ (own ++ [t])) := by
  unfold stageName at read
  split at read <;> cases read
  next named => exact ⟨before, _, rfl, around, .stageEnd focus named⟩

theorem stageClose_reads {first : Expression} {stages : List Stage} {found : Stage}
    (around : Open s.forms s.outer before)
    (focus : Focus.Reads s.outer.length (.stageEnd first opened head stages found) own)
    (read : stageClose s first opened head stages found t = .ok s') : s'.Reads (before ++ (own ++ [t])) := by
  unfold stageClose at read
  split at read <;> cases read
  next closes =>
    cases focus with
    | stageEnd inner named =>
    cases inner with
    | stageHead inner paren =>
    cases inner with
    | stages opens kind room derives admitted staged =>
    have staged := staged.append (.form paren named closes .nil)
    rw [← List.reverse_cons] at staged
    have reads := Focus.Reads.stages (p := head) opens kind room derives admitted staged
    refine ⟨before, _, ?_, around, reads⟩
    simp

theorem step_reads {tokens : List Token} (reads : s.Reads tokens) (read : step s t = .ok s') :
    s'.Reads (tokens ++ [t]) := by
  obtain ⟨before, own, rfl, around, focus⟩ := reads
  rw [List.append_assoc]
  unfold step at read
  split at read
  next found =>
    rw [found] at focus
    cases focus
    exact itemOrClose_reads around read
  next found => exact formHead_reads around (found ▸ focus) read
  next found => exact boundName_reads around (found ▸ focus) read
  next found => exact listStart_reads around (found ▸ focus) read
  next found => exact parameter_reads around (found ▸ focus) read
  next found => exact stage_reads around (found ▸ focus) read
  next found => exact stageName_reads around (found ▸ focus) read
  next found => exact stageClose_reads around (found ▸ focus) read

theorem Consumes.reads {tokens more : List Token} (consumed : Consumes s more s')
    (reads : s.Reads tokens) : s'.Reads (tokens ++ more) := by
  induction more generalizing s tokens with
  | nil =>
      cases consumed
      simpa using reads
  | cons t more ih =>
      rw [Consumes, List.foldlM_cons] at consumed
      obtain ⟨s₁, first, rest⟩ := bind_ok.mp consumed
      simpa using ih rest (step_reads reads first)

end Forms

section Ends

theorem step_eof {s s' : State} {t : Token} (eof : t.lexeme = .eof) (read : step s t = .ok s') :
    s.isComplete = true := by
  unfold step at read
  split at read
  next focus =>
    -- An expression may only be missing at the top level.
    cases outer : s.outer with
    | nil => simp [State.isComplete, focus, outer]
    | cons hole rest =>
        cases hole <;> simp [itemOrClose, outer, startExpression, eof, Diagnostic.syntactic] at read
  next =>
    simp only [formHead, eof] at read
    split at read
    · cases read
    · split at read <;> cases read
  next => simp [boundName, eof, Diagnostic.syntactic] at read
  next => simp [listStart, eof, Diagnostic.syntactic] at read
  next => simp [parameter, eof, Diagnostic.syntactic] at read
  next => simp [stage, eof, Diagnostic.syntactic] at read
  next => simp [stageName, eof, Diagnostic.syntactic] at read
  next => simp [stageClose, eof, Diagnostic.syntactic] at read

theorem eofToken_lexeme (tokens : List Token) : (eofToken tokens).lexeme = .eof := by
  unfold eofToken
  split
  next found => simpa using List.find?_some found
  next => rfl

theorem finish_ok {s : State} {t : Token} {forms : List Expression} (eof : t.lexeme = .eof)
    (read : finish s t = .ok forms) :
    s.outer = [] ∧ s.focus = .expression ∧ forms = s.forms.reverse := by
  have complete : s.isComplete = true ∧ forms = s.forms.reverse := by
    unfold finish at read
    split at read
    next complete =>
      cases read
      exact ⟨complete, rfl⟩
    next incomplete =>
      obtain ⟨s', found, _⟩ := bind_ok.mp read
      exact absurd (step_eof eof found) incomplete
  obtain ⟨complete, rfl⟩ := complete
  unfold State.isComplete at complete
  split at complete
  next focus => exact ⟨List.isEmpty_iff.mp complete, focus, rfl⟩
  next => cases complete

end Ends

theorem parseTokens_derives {tokens : List Token} {program : Expression}
    (read : parseTokens tokens = .ok program) : DerivesProgram (body tokens) program := by
  obtain ⟨s, run, read⟩ := bind_ok.mp read
  obtain ⟨forms, finished, read⟩ := bind_ok.mp read
  cases read
  have start : initial.Reads [] := ⟨[], [], rfl, .top .nil nofun, .expression⟩
  have run : Consumes initial (body tokens) s := run
  obtain ⟨before, own, split, around, focus⟩ := run.reads start
  obtain ⟨outer, expression, rfl⟩ := finish_ok (eofToken_lexeme tokens) finished
  rw [outer] at around
  rw [expression] at focus
  cases focus
  cases around with
  | top derives admitted =>
  simp only [List.nil_append, List.append_nil] at split
  exact .block (split ▸ derives) (by simpa using admitted)

end Parser

end LispMachine
