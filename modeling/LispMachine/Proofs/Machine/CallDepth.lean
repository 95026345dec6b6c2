import LispMachine.Proofs.Machine.Effects

set_option autoImplicit false

namespace LispMachine

namespace Buffer

theorem writeLine_bytes (b : Buffer) (text : String) : ∃ more, (b.writeLine text).1.bytes = b.bytes ++ more := by
  obtain ⟨before, _ | room, flushes⟩ := b
  · refine ⟨(text ++ "\n").toUTF8, ?_⟩
    simp only [writeLine, write]
    split <;> rfl
  · simp only [writeLine, write]
    by_cases fits : (text ++ "\n").toUTF8.size ≤ room
    · refine ⟨(text ++ "\n").toUTF8, ?_⟩
      rw [if_pos fits]
      cases flushes <;> rfl
    · refine ⟨(text ++ "\n").toUTF8.extract 0 room, ?_⟩
      rw [if_neg fits]

theorem writeLines_bytes (b : Buffer) (lines : List String) :
    ∃ more, (LineSink.writeLines b lines).bytes = b.bytes ++ more := by
  induction lines generalizing b with
  | nil => exact ⟨.empty, ByteArray.append_empty.symm⟩
  | cons text rest ih =>
      obtain ⟨first, written⟩ := b.writeLine_bytes text
      obtain ⟨more, after⟩ := ih (b.writeLine text).1
      exact ⟨first ++ more, by rw [← ByteArray.append_assoc, ← written]; exact after⟩

end Buffer

namespace Machine

variable {σ : Type} {unit : CompiledUnit} {limit limit' : Nat}

theorem invoke_raised (raised : limit ≤ limit') (s : State σ) (index : UInt16) (argc : UInt8) :
    invoke unit limit s index argc = invoke unit limit' s index argc ∨
      invoke unit limit s index argc = .stop (.error (.stackOverflow limit)) s.world := by
  obtain ⟨f, callers, depth, world⟩ := s
  simp only [invoke, bind, Except.bind]
  cases method unit index with
  | error fault => exact .inl rfl
  | ok chunk =>
      by_cases arity : chunk.arity = argc
      · simp only [arity, ne_eq, not_true_eq_false, if_false]
        cases f.popArgs argc with
        | error fault => exact .inl rfl
        | ok found =>
            by_cases full : limit ≤ depth
            · right
              simp only [if_pos full]
              rfl
            · left
              have room : ¬ limit' ≤ depth := by omega
              simp only [if_neg full, if_neg room]
      · left
        simp only [ne_eq, arity, not_false_eq_true, if_true]
        rfl

variable [LineSink σ]

theorem step_raised (unit : CompiledUnit) (raised : limit ≤ limit') (s : State σ) :
    step unit limit s = step unit limit' s ∨
      step unit limit s = .stop (.error (.stackOverflow limit)) s.world := by
  obtain ⟨f, callers, depth, world⟩ := s
  simp only [step]
  cases f.fetch with
  | none => exact .inl rfl
  | some found =>
      obtain ⟨⟨op, p⟩, f⟩ := found
      cases op with
      | invoke index argc => exact invoke_raised raised ⟨f, callers, depth, world⟩ index argc
      | callBuiltin builtin argc => cases builtin <;> exact .inl rfl
      | _ => exact .inl rfl

theorem runFor_raised (raised : limit ≤ limit') {fuel : Nat} {s : State σ} {result : Except Fault Value}
    {world : World σ} (ran : runFor unit limit fuel s = some (result, world)) :
    runFor unit limit' fuel s = some (result, world) ∨
      result = .error (.stackOverflow limit) ∧ ∃ s₁, Reaches unit limit' s s₁ ∧ s₁.world = world := by
  induction fuel generalizing s with
  | zero => cases ran
  | succ fuel ih =>
      simp only [runFor] at ran ⊢
      rcases step_raised unit raised s with same | full
      · rw [← same]
        cases stepped : step unit limit s with
        | stop result' world' =>
            rw [stepped] at ran
            exact .inl ran
        | next s₁ =>
            rw [stepped] at ran
            rcases ih ran with ended | ⟨overflows, s₂, reaches, there⟩
            · exact .inl ended
            · exact .inr ⟨overflows, s₂, .head (same ▸ stepped) reaches, there⟩
      · rw [full] at ran
        cases ran
        exact .inr ⟨rfl, s, .refl, rfl⟩

theorem Reaches.runFor {s s₁ : State σ} (reaches : Reaches unit limit s s₁) {fuel : Nat}
    {result : Except Fault Value × World σ} (ran : Machine.runFor unit limit fuel s = some result) :
    ∃ fuel', Machine.runFor unit limit fuel' s₁ = some result := by
  induction reaches generalizing fuel with
  | refl => exact ⟨fuel, ran⟩
  | head stepped _ ih =>
      cases fuel with
      | zero => cases ran
      | succ fuel =>
          simp only [Machine.runFor, stepped] at ran
          exact ih ran

theorem overflow_output (raised : limit ≤ limit') {s : State σ} {ended ended' : World σ} {fuel fuel' : Nat}
    {result : Except Fault Value}
    (overflows : runFor unit limit fuel s = some (.error (.stackOverflow limit), ended))
    (ran : runFor unit limit' fuel' s = some (result, ended')) :
    ∃ more, ended'.output = LineSink.writeLines ended.output more := by
  rcases runFor_raised raised overflows with same | ⟨_, s₁, reaches, rfl⟩
  · obtain ⟨s₁, reaches, stopped⟩ := reaches_of_runFor same
    obtain ⟨rest, ended⟩ := reaches.runFor ran
    cases rest with
    | zero => cases ended
    | succ rest =>
        simp only [runFor, stopped] at ended
        cases ended
        exact ⟨[], rfl⟩
  · obtain ⟨rest, ran⟩ := reaches.runFor ran
    exact runFor_output ran

/-- A run that ends without an overflow ends alike under every higher limit: with the same result, globals
and output. The lines of a run that overflows are the first ones of each run under a higher limit that ends,
and so are the bytes that a buffer has of them. -/
theorem raised_limit_conservative (unit : CompiledUnit) {limit limit' : Nat} (raised : limit ≤ limit') :
    (∀ (σ : Type) [LineSink σ] (world ended : World σ) (fuel : Nat) (result : Except Fault Value),
      runFor unit limit fuel (start unit world) = some (result, ended) →
      result ≠ .error (.stackOverflow limit) →
      runFor unit limit' fuel (start unit world) = some (result, ended)) ∧
    (∀ (σ : Type) [LineSink σ] (world ended ended' : World σ) (fuel fuel' : Nat) (result : Except Fault Value),
      runFor unit limit fuel (start unit world) = some (.error (.stackOverflow limit), ended) →
      runFor unit limit' fuel' (start unit world) = some (result, ended') →
      ∃ lines more, ended.output = LineSink.writeLines world.output lines ∧
        ended'.output = LineSink.writeLines world.output (lines ++ more)) ∧
    ∀ (world ended ended' : World Buffer) (fuel fuel' : Nat) (result : Except Fault Value),
      runFor unit limit fuel (start unit world) = some (.error (.stackOverflow limit), ended) →
      runFor unit limit' fuel' (start unit world) = some (result, ended') →
      ∃ more, ended'.output.bytes = ended.output.bytes ++ more := by
  refine ⟨fun σ _ world ended fuel result ran other => ?_,
    fun σ _ world ended ended' fuel fuel' result overflows ran => ?_,
    fun world ended ended' fuel fuel' result overflows ran => ?_⟩
  · rcases runFor_raised raised ran with same | ⟨overflows, _⟩
    · exact same
    · exact absurd overflows other
  · obtain ⟨lines, first⟩ := runFor_output overflows
    obtain ⟨more, after⟩ := overflow_output raised overflows ran
    refine ⟨lines, more, first, ?_⟩
    rw [after, first, LineSink.writeLines_append]
    rfl
  · obtain ⟨more, after⟩ := overflow_output raised overflows ran
    rw [after]
    exact ended.output.writeLines_bytes more

section Chatty

def chatty : CompiledUnit :=
  { name := "chatty"
    constants := .empty
    methods := #[⟨"f", 0, 0, 1, #[⟨.pushFalse, none⟩, ⟨.callBuiltin .println 1, none⟩, ⟨.ret, none⟩]⟩]
    entry := ⟨"<main>", 0, 0, 1, #[⟨.pushTrue, none⟩, ⟨.callBuiltin .println 1, none⟩, ⟨.pop, none⟩,
      ⟨.invoke 0 0, none⟩, ⟨.ret, none⟩]⟩ }

def chattyStart : State Buffer := start chatty ⟨∅, .unbounded⟩

def chattyLines (lines : List String) : World Buffer := ⟨∅, LineSink.writeLines .unbounded lines⟩

theorem chatty_overflows : runFor chatty 1 8 chattyStart =
    some (.error (.stackOverflow 1), chattyLines ["true"]) := rfl

theorem chatty_ends : runFor chatty 2 8 chattyStart = some (.ok .nil, chattyLines ["true", "false"]) := rfl

theorem chatty_raised :
    runFor chatty 9 8 chattyStart = some (.ok .nil, chattyLines ["true", "false"]) ∧
      ∃ more, (chattyLines ["true", "false"]).output.bytes = (chattyLines ["true"]).output.bytes ++ more := by
  have higher := (raised_limit_conservative chatty (show 2 ≤ 9 by decide)).1 Buffer
  have bytes := (raised_limit_conservative chatty (show 1 ≤ 2 by decide)).2.2
  exact ⟨higher _ _ 8 _ chatty_ends nofun, bytes _ _ _ 8 8 _ chatty_overflows chatty_ends⟩

end Chatty

end Machine

end LispMachine
