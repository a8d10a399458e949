import Mathlib.Data.List.ReduceOption
import ScriptFrontEnd.Parser.Operation
import ScriptFrontEnd.Proofs.Parser.Program
import ScriptFrontEnd.Proofs.Token.Places

namespace ScriptFrontEnd

theorem reaches_attempts (rules : Rules) (levels : Nat) (c : Cursor) :
    c.Reaches (attempts rules levels c).2 := by
  induction c using attempts_induction rules levels with
  | nil eof =>
    rw [attempts_nil]
    exact .refl _
  | cons t tokens eof ih =>
    rw [attempts_cons]
    exact (reaches_attempt rules levels _).trans ih

theorem length_attempts_le (rules : Rules) (levels : Nat) (c : Cursor) :
    (attempts rules levels c).1.length ≤ c.ahead.length := by
  induction c using attempts_induction rules levels with
  | nil eof =>
    rw [attempts_nil]
    exact Nat.zero_le _
  | cons t tokens eof ih =>
    have hlt := length_ahead_attempt (List.cons_ne_nil t tokens)
      (rfl : attempt rules levels ⟨t :: tokens, eof⟩ = _)
    rw [attempts_cons, List.length_cons]
    exact Nat.lt_of_le_of_lt ih hlt

theorem attempts_eq_nil_iff {rules : Rules} {levels : Nat} {c : Cursor} :
    (attempts rules levels c).1 = [] ↔ c.ahead = [] := by
  obtain ⟨ahead, eof⟩ := c
  cases ahead with
  | nil => simp [attempts_nil]
  | cons t tokens => simp [attempts_cons]

theorem length_succeeded_add_length_failed (outcomes : List (Except Diagnostic Statement)) :
    (succeeded outcomes).length + (failed outcomes).length = outcomes.length := by
  induction outcomes with
  | nil => rfl
  | cons outcome outcomes ih =>
    cases outcome with
    | ok s =>
      rw [succeeded_cons_ok, failed_cons_ok, List.length_cons, List.length_cons]
      omega
    | error d =>
      rw [succeeded_cons_error, failed_cons_error, List.length_cons, List.length_cons]
      omega

theorem succeeded_eq_reduceOption (outcomes : List (Except Diagnostic Statement)) :
    succeeded outcomes = (outcomes.map Except.toOption).reduceOption := by
  rw [List.reduceOption, List.filterMap_map]
  rfl

theorem length_failed (outcomes : List (Except Diagnostic Statement)) :
    (failed outcomes).length = (outcomes.map Except.toOption).countP Option.isNone := by
  induction outcomes with
  | nil => rfl
  | cons outcome outcomes ih =>
    cases outcome with
    | ok s =>
      rw [failed_cons_ok, ih]
      rfl
    | error d =>
      rw [failed_cons_error, List.length_cons, ih, List.map_cons, List.countP_cons]
      rfl

namespace Operation

def ReadsConstruct : Operation → Prop
  | parseStatement | parseLetBinding | parseReturning | parseExpressionStatement => True
  | parseExpression _ | parsePrimary | parseUnary | parseGrouping | parseBinary _ _ => True
  | _ => False

def Registers : Operation → Prop
  | registerStatement _ _ | registerOperand _ _ | registerOperator _ _ => True
  | _ => False

end Operation

def Answer.Found : Answer → Prop
  | expression e => e.isSome
  | statement s => s.isSome
  | token t => t.isSome
  | _ => True

namespace Parser

variable {α : Type}

def Accounts (p : Parser) (found : Prop) (q : Parser) : Prop :=
  found ∧ q.diagnostics = p.diagnostics ∨ ¬ found ∧ ∃ d, q.diagnostics = p.diagnostics ++ [d]

theorem accounts_run (p : Parser) (x : Reader α) : p.Accounts (p.run x).1.isSome (p.run x).2 := by
  unfold run
  cases x p.cursor with
  | ok a c => exact .inl ⟨rfl, rfl⟩
  | error d c => exact .inr ⟨Bool.false_ne_true, d, rfl⟩

theorem exists_reader (p : Parser) {o : Operation} (h : o.ReadsConstruct) :
    ∃ (α : Type) (x : Reader α) (answer : Option α → Answer), x.Forward ∧
      p.perform o = (p.run x).map answer id ∧ ∀ a, (answer a).Found ↔ a.isSome := by
  have hoperand (floor : Precedence) : (p.operand floor).Forward := .expression _ _ floor
  cases o with
  | parseStatement =>
    exact ⟨Statement, .statement _ _, .statement, .statement _ _, rfl, fun _ => .rfl⟩
  | parseLetBinding => exact ⟨Statement, .letBinding, .statement, .letBinding, rfl, fun _ => .rfl⟩
  | parseReturning => exact ⟨Statement, .returning, .statement, .returning, rfl, fun _ => .rfl⟩
  | parseExpressionStatement =>
    exact ⟨Statement, .expressionStatement _ _, .statement, .expressionStatement _ _, rfl,
      fun _ => .rfl⟩
  | parseExpression floor =>
    exact ⟨Expr, p.operand floor, .expression, hoperand floor, rfl, fun _ => .rfl⟩
  | parsePrimary => exact ⟨Expr, .primary, .expression, .primary, rfl, fun _ => .rfl⟩
  | parseUnary => exact ⟨Expr, .unary p.operand, .expression, .unary hoperand, rfl, fun _ => .rfl⟩
  | parseGrouping =>
    exact ⟨Expr, .grouping p.operand, .expression, .grouping hoperand, rfl, fun _ => .rfl⟩
  | parseBinary left power =>
    exact ⟨Expr, .binary p.operand left power, .expression, .binary hoperand left power, rfl,
      fun _ => .rfl⟩
  | advance | expect | report | enter | leave | parseProgram => exact h.elim
  | registerStatement | registerOperand | registerOperator => exact h.elim

theorem accounts_perform (p : Parser) {o : Operation} (h : o.ReadsConstruct) :
    p.Accounts (p.perform o).1.Found (p.perform o).2 := by
  obtain ⟨α, x, answer, -, hx, hfound⟩ := p.exists_reader h
  have hanswer := hfound (p.run x).1
  rw [hx]
  rcases p.accounts_run x with ⟨hsome, hsame⟩ | ⟨hnone, hadded⟩
  · exact .inl ⟨hanswer.mpr hsome, hsame⟩
  · exact .inr ⟨fun h => hnone (hanswer.mp h), hadded⟩

theorem rules_enter (p : Parser) : p.enter.2.rules = p.rules := by
  unfold enter
  split <;> rfl

theorem rules_perform (p : Parser) {o : Operation} (h : ¬ o.Registers) :
    (p.perform o).2.rules = p.rules := by
  by_cases hc : o.ReadsConstruct
  · obtain ⟨α, x, answer, -, hx, -⟩ := p.exists_reader hc
    rw [hx]
    exact p.rules_run x
  · cases o with
    | advance => exact p.rules_run .advance
    | expect kind => exact p.rules_run (.expect kind)
    | enter => exact p.rules_enter
    | report | leave | parseProgram => rfl
    | registerStatement | registerOperand | registerOperator => exact absurd trivial h
    | _ => exact absurd trivial hc

theorem reaches_run (p : Parser) {x : Reader α} (hx : x.Forward) :
    p.cursor.Reaches (p.run x).2.cursor := by
  rw [cursor_run]
  exact hx p.cursor

theorem cursor_enter (p : Parser) : p.enter.2.cursor = p.cursor := by
  unfold enter
  split <;> rfl

theorem reaches_perform (p : Parser) (o : Operation) :
    p.cursor.Reaches (p.perform o).2.cursor := by
  by_cases hc : o.ReadsConstruct
  · obtain ⟨α, x, answer, hforward, hx, -⟩ := p.exists_reader hc
    rw [hx]
    exact p.reaches_run hforward
  · cases o with
    | advance => exact p.reaches_run .advance
    | expect kind => exact p.reaches_run (.expect kind)
    | enter =>
      change p.cursor.Reaches p.enter.2.cursor
      rw [cursor_enter]
      exact .refl _
    | report | leave | registerStatement | registerOperand | registerOperator => exact .refl _
    | parseProgram => exact reaches_attempts _ _ _
    | _ => exact absurd trivial hc

theorem reaches_after (p : Parser) (operations : List Operation) :
    p.cursor.Reaches (p.after operations).cursor := by
  induction operations generalizing p with
  | nil => exact .refl _
  | cons o operations ih => exact (p.reaches_perform o).trans (ih _)

inductive Reads : Parser → List (Option Statement) → Parser → Prop
  | done {p : Parser} : p.current.kind = .eof → Reads p [] p
  | step {p q : Parser} {outcomes} : p.current.kind ≠ .eof →
      Reads p.parseStatement.2.advance.2 outcomes q →
      Reads p (p.parseStatement.1 :: outcomes) q

theorem attempt_eq_parseStatement (p : Parser) {outcome : Except Diagnostic Statement} {d : Cursor}
    (h : attempt p.rules p.levels p.cursor = (outcome, d)) :
    p.parseStatement.1 = outcome.toOption ∧
      p.parseStatement.2.advance.2 =
        { p with cursor := d, diagnostics := p.diagnostics ++ failed [outcome] } := by
  unfold parseStatement run
  unfold attempt at h
  cases hc : Reader.statement p.rules p.levels p.cursor with
  | ok s c =>
    rw [hc] at h
    obtain ⟨rfl, rfl⟩ := Prod.mk.inj h
    refine ⟨rfl, ?_⟩
    simp [advance, run, Reader.advance, failed]
  | error e c =>
    rw [hc] at h
    obtain ⟨rfl, rfl⟩ := Prod.mk.inj h
    refine ⟨rfl, ?_⟩
    simp [advance, run, Reader.advance, failed]

theorem parseProgram_of_attempt (p : Parser) {outcome : Except Diagnostic Statement} {d : Cursor}
    (hne : p.cursor.ahead ≠ []) (h : attempt p.rules p.levels p.cursor = (outcome, d)) :
    p.parseProgram.2 = (parseProgram
      { p with cursor := d, diagnostics := p.diagnostics ++ failed [outcome] }).2 := by
  unfold parseProgram
  rw [attempts_of_attempt hne h]
  dsimp only
  rw [← List.singleton_append, failed_append, List.append_assoc]
  rfl

theorem reads_parseProgram (p : Parser) (he : p.cursor.eof.kind = .eof)
    (hk : ∀ t ∈ p.cursor.ahead, t.kind ≠ .eof) :
    Reads p ((attempts p.rules p.levels p.cursor).1.map Except.toOption) p.parseProgram.2 := by
  obtain ⟨c, rules, depth, diagnostics⟩ := p
  -- rules and depth stay as they are from one attempt to the next, and diagnostics are added
  change Reads _ ((attempts rules (nestingLimit - depth) c).1.map Except.toOption) _
  dsimp only at he hk
  induction c using attempts_induction rules (nestingLimit - depth) generalizing diagnostics with
  | nil eof =>
    have hstop : parseProgram ⟨⟨[], eof⟩, rules, depth, diagnostics⟩ =
        (⟨[]⟩, ⟨⟨[], eof⟩, rules, depth, diagnostics⟩) := by
      simp [parseProgram, attempts_nil, succeeded, failed]
    rw [attempts_nil, hstop]
    exact .done he
  | cons t tokens eof ih =>
    let p : Parser := ⟨⟨t :: tokens, eof⟩, rules, depth, diagnostics⟩
    obtain ⟨outcome, d, hout⟩ : ∃ outcome d,
        attempt rules (nestingLimit - depth) ⟨t :: tokens, eof⟩ = (outcome, d) := ⟨_, _, rfl⟩
    have hne : p.cursor.ahead ≠ [] := List.cons_ne_nil t tokens
    have hreaches := reaches_attempt rules (nestingLimit - depth) ⟨t :: tokens, eof⟩
    obtain ⟨hfound, hafter⟩ := p.attempt_eq_parseStatement hout
    rw [hout] at ih hreaches
    have hlater := ih (diagnostics ++ failed [outcome]) (hreaches.2 ▸ he)
      fun u hu => hk u (hreaches.1.subset hu)
    have hcurrent : p.current.kind ≠ .eof := hk t (List.mem_cons_self ..)
    rw [attempts_of_attempt hne hout, p.parseProgram_of_attempt hne hout, List.map_cons, ← hfound]
    exact .step hcurrent (hafter ▸ hlater)

theorem reads_parseProgram_after (l : Lexer) (operations : List Operation) :
    let p := (ofLexer l).after operations
    Reads p ((attempts p.rules p.levels p.cursor).1.map Except.toOption) p.parseProgram.2 := by
  obtain ⟨hahead, heof⟩ := (ofLexer l).reaches_after operations
  exact reads_parseProgram _ (heof ▸ rfl)
    fun t ht => Lexer.kind_ne_eof_of_mem_tokens (hahead.subset ht)

end Parser

theorem diagnostics_account_for_failures :
    (∀ (l : Lexer) (operations : List Operation) (o : Operation),
      let p := (Parser.ofLexer l).after operations
      (o.ReadsConstruct →
        (p.perform o).1.Found ∧ (p.perform o).2.diagnostics = p.diagnostics ∨
          ¬ (p.perform o).1.Found ∧ ∃ d, (p.perform o).2.diagnostics = p.diagnostics ++ [d]) ∧
        (¬ o.Registers → (p.perform o).2.rules = p.rules)) ∧
      ∀ (source : String) (file : Option String), ∃ outcomes : List (Option Statement),
        Parser.Reads (.ofSource source file) outcomes (Parser.ofSource source file).parseProgram.2 ∧
          (parse source file).1.statements = outcomes.reduceOption ∧
          (parse source file).2.length = outcomes.countP Option.isNone ∧
          (parse source file).1.statements.length + (parse source file).2.length ≤
            (tokenize source file).countP (·.kind ≠ .eof) ∧
          ((parse source file).1.statements = [] ∧ (parse source file).2 = [] ↔
            ∀ c ∈ source.toList, c ∈ [' ', '\t', '\r', '\n']) := by
  refine ⟨fun l operations o => ⟨fun h => Parser.accounts_perform _ h,
    fun h => Parser.rules_perform _ h⟩, fun source file => ?_⟩
  let c := Cursor.ofSource source file
  let outcomes := (attempts .standard nestingLimit c).1
  have hkinds : ∀ t ∈ c.ahead, t.kind ≠ .eof := fun t ht => Lexer.kind_ne_eof_of_mem_tokens ht
  have hsum : (parse source file).1.statements.length + (parse source file).2.length =
      outcomes.length := length_succeeded_add_length_failed outcomes
  refine ⟨outcomes.map Except.toOption, ?_, succeeded_eq_reduceOption outcomes,
    length_failed outcomes, ?_, ?_⟩
  · exact Parser.reads_parseProgram_after (Lexer.ofSource source file) []
  · have hcount : (tokenize source file).countP (·.kind ≠ .eof) = c.ahead.length := by
      have hall : c.ahead.countP (·.kind ≠ .eof) = c.ahead.length :=
        List.countP_eq_length.mpr (by simpa using hkinds)
      rw [tokenize, List.countP_append]
      exact congrArg (· + 0) hall
    rw [hsum, hcount]
    exact length_attempts_le .standard nestingLimit c
  · have hnil : (parse source file).1.statements = [] ∧ (parse source file).2 = [] ↔
        outcomes = [] := by
      rw [← List.length_eq_zero_iff, ← List.length_eq_zero_iff, ← List.length_eq_zero_iff, ← hsum]
      omega
    have hahead : c.ahead = [] ↔ lexemes (units source) = [] := by
      have hbare := map_unplaced_tokenize source file
      rw [← Cursor.ahead_ofSource] at hbare
      rw [← List.map_eq_nil_iff (f := Token.unplaced), hbare, bareTokens, List.map_eq_nil_iff]
    rw [hnil, attempts_eq_nil_iff, hahead, lexemes_eq_nil_iff, forall_mem_units_iff]

end ScriptFrontEnd
