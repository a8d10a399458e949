import ScriptFrontEnd.Parser.Execution
import ScriptFrontEnd.Proofs.Parser.Termination

namespace ScriptFrontEnd

namespace Parser

variable {p q : Parser}

theorem enter_eq_true : p.enter = (true, q) ↔
    p.depth < nestingLimit ∧ q = { p with depth := p.depth + 1 } := by
  unfold enter
  split
  · next h => simp [h, eq_comm]
  · next h => simp [h]

theorem enter_eq_false : p.enter = (false, q) ↔
    nestingLimit ≤ p.depth ∧ q = p.report ⟨.nestingTooDeep nestingLimit, p.position⟩ := by
  unfold enter
  split
  · next h => simp [Nat.not_le_of_lt h]
  · next h => simp [Nat.le_of_not_lt h, eq_comm]

theorem Executes.depth_eq {k : Routine} {result : Answer × Parser} (h : Executes k p result) :
    result.2.depth = p.depth := by
  -- an expression is left just where one was entered
  induction h with
  | refused h =>
    obtain ⟨-, rfl⟩ := enter_eq_false.mp h
    rfl
  | entered h _ ih =>
    obtain ⟨-, rfl⟩ := enter_eq_true.mp h
    exact congrArg Nat.pred ih
  | unknown _ => rfl
  | operand _ _ _ iho ihr => exact ihr.trans iho
  | operandFails _ _ ih => exact ih
  | stop _ => rfl
  | more _ _ _ iho ihr => exact (ihr.trans iho).trans (depth_run _ _)
  | operatorFails _ _ ih => exact ih.trans (depth_run _ _)
  | @primary p => exact p.depth_run .primary
  | unary _ ih => exact ih.trans (depth_run _ _)
  | grouping _ ih => exact ((depth_run _ _).trans ih).trans (depth_run _ _)
  | groupFails _ ih => exact ih.trans (depth_run _ _)
  | binary _ ih => exact ih.trans (depth_run _ _)
  | @letBinding p => exact p.depth_run .letBinding
  | @returning p => exact p.depth_run .returning
  | expressionStatement _ ih => exact ih
  | statement _ ih => exact ih
  | done _ => rfl
  | attempt _ _ _ ihs ihr => exact ihr.trans ((depth_run _ _).trans ihs)

def ending (p : Parser) (r : Ending) : Answer × Parser :=
  (p.run fun _ => r).map .expression id

theorem ending_eq_some {r : Ending} {e : Expr} (h : p.ending r = (.expression (some e), q)) :
    ∃ d, r = .ok e d ∧ q = { p with cursor := d } := by
  cases r with
  | ok e' d =>
    obtain ⟨he, rfl⟩ := Prod.mk.inj h
    obtain rfl : e' = e := by simpa using he
    exact ⟨d, rfl, rfl⟩
  | error x d => cases h

theorem ending_eq_none {r : Ending} (h : p.ending r = (.expression none, q)) :
    ∃ x d, r = .error x d := by
  cases r with
  | ok e d => cases h
  | error x d => exact ⟨x, d, rfl⟩

theorem leave_ending (r : Ending) :
    (({ p with depth := p.depth + 1 } : Parser).ending r).map id leave = p.ending r := by
  cases r <;> rfl

end Parser

def Routine.Evaluated (p : Parser) (result : Answer × Parser) : Routine → Prop
  | .operation (.parseExpression floor) =>
      ∃ n r, Evaluates p.rules (.whole floor) p.depth p.cursor n r ∧ result = p.ending r
  | .operation .parsePrimary => result = p.ending (Reader.primary p.cursor)
  | .operation .parseUnary =>
      ∃ n r, Evaluates p.rules (.whole .unary) p.depth p.cursor.advance n r ∧
        result = p.ending (Reader.unary (fun _ _ => r) p.cursor)
  | .operation .parseGrouping =>
      ∃ n r, Evaluates p.rules (.whole .lowest) p.depth p.cursor.advance n r ∧
        result = p.ending (Reader.grouping (fun _ _ => r) p.cursor)
  | .operation (.parseBinary left power) =>
      ∃ n r, Evaluates p.rules (.operator left power) p.depth p.cursor n r ∧ result = p.ending r
  | .body floor =>
      ∀ depth, p.depth = depth + 1 → depth < nestingLimit →
        ∃ n r, Evaluates p.rules (.whole floor) depth p.cursor n r ∧ result = p.ending r
  | .operators floor left =>
      ∃ n r, Evaluates p.rules (.rest floor left) p.depth p.cursor n r ∧ result = p.ending r
  | .operation _ => True

namespace Parser

variable {p q : Parser}

theorem exists_evaluates_lead {rule : OperandRule} {result : Answer × Parser}
    (hrule : p.rules.operand p.current.kind = some rule)
    (h : Routine.Evaluated p result (.operation rule.operation)) :
    ∃ n r, Evaluates p.rules .lead p.depth p.cursor n r ∧ result = p.ending r := by
  cases rule with
  | primary => exact ⟨0, _, .primary hrule, h⟩
  | unary =>
    obtain ⟨n, r, hr, h⟩ := h
    exact ⟨n, _, .unary hrule hr, h⟩
  | grouping =>
    obtain ⟨n, r, hr, h⟩ := h
    exact ⟨n, _, .grouping hrule hr, h⟩

theorem ending_grouping (p : Parser) (e : Expr) (d : Cursor) :
    p.ending (Reader.grouping (fun _ _ => .ok e d) p.cursor) =
      ((({ p with cursor := d } : Parser).expect .closeParen).map
        (fun t => .expression (t.map fun _ => e)) id) := by
  have hgrouping : Reader.grouping (fun _ _ => .ok e d) p.cursor =
      (do let _ ← Reader.expect .closeParen; return e : Reader Expr) d := rfl
  unfold ending expect run
  rw [hgrouping, Reader.bind_apply]
  cases Reader.expect .closeParen d <;> rfl

theorem Executes.evaluated {k : Routine} {result : Answer × Parser} (h : Executes k p result) :
    k.Evaluated p result := by
  induction h with
  | refused h =>
    obtain ⟨hdepth, rfl⟩ := enter_eq_false.mp h
    exact ⟨0, _, .refused hdepth, rfl⟩
  | @entered floor p q answer r h _ ih =>
    obtain ⟨hdepth, rfl⟩ := enter_eq_true.mp h
    obtain ⟨n, x, hx, heq⟩ := ih p.depth rfl hdepth
    refine ⟨n, x, hx, ?_⟩
    rw [← leave_ending, ← heq]
    rfl
  | unknown h => exact fun depth hp hdepth => ⟨_, _, .leadFails hdepth (.unknown h), rfl⟩
  | @operand floor p rule left q result hrule _ _ iho ihr =>
    intro depth hp hdepth
    obtain ⟨m, r, hlead, heq⟩ := exists_evaluates_lead hrule iho
    obtain ⟨d, rfl, rfl⟩ := ending_eq_some heq.symm
    obtain ⟨n, r, hrest, heq⟩ := ihr
    exact ⟨_, _, .whole hdepth (hp ▸ hlead) (hp ▸ hrest), heq⟩
  | @operandFails floor p rule q hrule _ ih =>
    intro depth hp hdepth
    obtain ⟨m, r, hlead, heq⟩ := exists_evaluates_lead hrule ih
    obtain ⟨x, d, rfl⟩ := ending_eq_none heq.symm
    exact ⟨_, _, .leadFails hdepth (hp ▸ hlead), heq⟩
  | stop h => exact ⟨0, _, .stop h, rfl⟩
  | @more floor left p e q result h _ _ iho ihr =>
    obtain ⟨m, r, ho, heq⟩ := iho
    obtain ⟨d, rfl, rfl⟩ := ending_eq_some heq.symm
    obtain ⟨n, r, hrest, heq⟩ := ihr
    exact ⟨_, _, .more h ho hrest, heq⟩
  | @operatorFails floor left p q h _ ih =>
    obtain ⟨m, r, ho, heq⟩ := ih
    obtain ⟨x, d, rfl⟩ := ending_eq_none heq.symm
    exact ⟨_, _, .operatorFails h ho, heq⟩
  | primary => exact rfl
  | unary _ ih =>
    obtain ⟨n, r, hr, heq⟩ := ih
    refine ⟨n, r, hr, ?_⟩
    cases r <;> cases heq <;> rfl
  | @grouping p e q _ ih =>
    obtain ⟨n, r, hr, heq⟩ := ih
    refine ⟨n, r, hr, ?_⟩
    obtain ⟨d, rfl, rfl⟩ := ending_eq_some heq.symm
    exact (ending_grouping p _ d).symm
  | groupFails _ ih =>
    obtain ⟨n, r, hr, heq⟩ := ih
    obtain ⟨x, d, rfl⟩ := ending_eq_none heq.symm
    exact ⟨n, _, hr, heq⟩
  | binary _ ih =>
    obtain ⟨n, r, hr, heq⟩ := ih
    refine ⟨n, _, .operator hr, ?_⟩
    cases r <;> cases heq <;> rfl
  | letBinding | returning | expressionStatement | statement | done | attempt => trivial

end Parser

def Part.Executed (p : Parser) (r : Ending) : Part → Prop
  | .whole floor => p.Executes (.operation (.parseExpression floor)) (p.ending r)
  | .lead =>
      (∃ rule, p.rules.operand p.current.kind = some rule ∧
        p.Executes (.operation rule.operation) (p.ending r)) ∨
      (p.rules.operand p.current.kind = none ∧
        r = Reader.fail (.noOperand p.current.kind) p.cursor)
  | .operator left power => p.Executes (.operation (.parseBinary left power)) (p.ending r)
  | .rest floor left => p.Executes (.operators floor left) (p.ending r)

namespace Parser

variable {p : Parser} {r : Ending}

theorem executes_entered {floor : Precedence} (hdepth : p.depth < nestingLimit)
    (h : Executes (.body floor) { p with depth := p.depth + 1 }
      (({ p with depth := p.depth + 1 } : Parser).ending r)) :
    Executes (.operation (.parseExpression floor)) p (p.ending r) := by
  rw [← leave_ending]
  exact .entered (enter_eq_true.mpr ⟨hdepth, rfl⟩) h

theorem executes_unary
    (h : Executes (.operation (.parseExpression .unary)) p.advance.2 (p.advance.2.ending r)) :
    Executes (.operation .parseUnary) p (p.ending (Reader.unary (fun _ _ => r) p.cursor)) := by
  cases r with
  | ok e d => exact .unary h
  | error x d => exact .unary h

theorem executes_binary {left : Expr} {power : Precedence}
    (h : Executes (.operation (.parseExpression power)) p.advance.2 (p.advance.2.ending r)) :
    Executes (.operation (.parseBinary left power)) p
      (p.ending (Reader.binary (fun _ _ => r) left power p.cursor)) := by
  cases r with
  | ok e d => exact .binary h
  | error x d => exact .binary h

theorem executes_grouping
    (h : Executes (.operation (.parseExpression .lowest)) p.advance.2 (p.advance.2.ending r)) :
    Executes (.operation .parseGrouping) p
      (p.ending (Reader.grouping (fun _ _ => r) p.cursor)) := by
  cases r with
  | ok e d =>
    rw [ending_grouping]
    exact .grouping h
  | error x d => exact .groupFails h

end Parser

theorem Evaluates.executed {rules : Rules} {part : Part} {depth n : Nat} {c : Cursor} {r : Ending}
    (h : Evaluates rules part depth c n r) (diagnostics : List Diagnostic) :
    part.Executed ⟨c, rules, depth, diagnostics⟩ r := by
  induction h generalizing diagnostics with
  | refused hdepth => exact .refused (Parser.enter_eq_false.mpr ⟨hdepth, rfl⟩)
  | whole hdepth _ _ ihl ihr =>
    refine Parser.executes_entered hdepth ?_
    rcases ihl diagnostics with ⟨rule, hrule, hlead⟩ | ⟨-, hfail⟩
    · exact .operand hrule hlead (ihr diagnostics)
    · cases hfail
  | leadFails hdepth _ ihl =>
    refine Parser.executes_entered hdepth ?_
    rcases ihl diagnostics with ⟨rule, hrule, hlead⟩ | ⟨hnone, hfail⟩
    · exact .operandFails hrule hlead
    · rw [hfail]
      exact .unknown hnone
  | unknown h => exact .inr ⟨h, rfl⟩
  | primary h => exact .inl ⟨.primary, h, .primary⟩
  | unary h _ ih => exact .inl ⟨.unary, h, Parser.executes_unary (ih diagnostics)⟩
  | grouping h _ ih => exact .inl ⟨.grouping, h, Parser.executes_grouping (ih diagnostics)⟩
  | operator _ ih => exact Parser.executes_binary (ih diagnostics)
  | stop h => exact .stop h
  | more h _ _ iho ihr => exact .more h (iho diagnostics) (ihr diagnostics)
  | operatorFails h _ iho => exact .operatorFails h (iho diagnostics)

namespace Operation

def Parses : Operation → Prop
  | parseProgram => True
  | o => o.ReadsConstruct

end Operation

namespace Parser

variable {p : Parser} {result : Answer × Parser}

theorem executes_parseExpression_iff (hc : p.cursor.Closed) {floor : Precedence} :
    Executes (.operation (.parseExpression floor)) p result ↔
      result = p.perform (.parseExpression floor) := by
  constructor
  · intro h
    obtain ⟨n, r, hr, rfl⟩ := h.evaluated
    have hgives : Reader.expression p.rules p.levels floor p.cursor = r := hr.gives hc.eof trivial
    rw [← hgives]
    rfl
  · rintro rfl
    obtain ⟨n, hn⟩ := Evaluates.exists_whole p.rules p.levels rfl floor hc.eof
    exact hn.executed p.diagnostics

section Operand

variable (hc : p.cursor.Closed)

include hc

theorem closed_advance : p.advance.2.cursor.Closed := hc.of_reaches p.cursor.reaches_advance

theorem executes_parseUnary_iff :
    Executes (.operation .parseUnary) p result ↔ result = p.perform .parseUnary := by
  constructor
  · intro h
    obtain ⟨n, r, hr, rfl⟩ := h.evaluated
    have hgives : p.operand .unary p.cursor.advance = r := hr.gives hc.eof trivial
    rw [← hgives]
    rfl
  · rintro rfl
    exact executes_unary ((executes_parseExpression_iff (closed_advance hc)).mpr rfl)

theorem executes_parseGrouping_iff :
    Executes (.operation .parseGrouping) p result ↔ result = p.perform .parseGrouping := by
  constructor
  · intro h
    obtain ⟨n, r, hr, rfl⟩ := h.evaluated
    have hgives : p.operand .lowest p.cursor.advance = r := hr.gives hc.eof trivial
    rw [← hgives]
    rfl
  · rintro rfl
    exact executes_grouping ((executes_parseExpression_iff (closed_advance hc)).mpr rfl)

theorem executes_parseBinary_iff {left : Expr} {power : Precedence} :
    Executes (.operation (.parseBinary left power)) p result ↔
      result = p.perform (.parseBinary left power) := by
  constructor
  · intro h
    obtain ⟨n, r, hr, rfl⟩ := h.evaluated
    have hgives : Reader.binary p.operand left power p.cursor = r := hr.gives hc.eof trivial
    rw [← hgives]
    rfl
  · rintro rfl
    exact executes_binary ((executes_parseExpression_iff (closed_advance hc)).mpr rfl)

end Operand

theorem perform_parseExpressionStatement (p : Parser) :
    p.perform .parseExpressionStatement =
      (p.parseExpression .lowest).map (fun e => .statement (e.map (.expression p.current)))
        passSemicolon := by
  have hreader : Reader.expressionStatement p.rules p.levels p.cursor =
      ((p.operand .lowest).andThen Cursor.passSemicolon >>= fun e =>
        pure (.expression p.current e) : Reader Statement) p.cursor := rfl
  change (p.run (Reader.expressionStatement p.rules p.levels)).map Answer.statement id = _
  unfold parseExpression run
  rw [hreader, Reader.bind_apply, Reader.andThen]
  cases p.operand .lowest p.cursor <;> rfl

theorem executes_parseExpressionStatement_iff (hc : p.cursor.Closed) :
    Executes (.operation .parseExpressionStatement) p result ↔
      result = p.perform .parseExpressionStatement := by
  rw [perform_parseExpressionStatement]
  constructor
  · intro h
    cases h with
    | expressionStatement h =>
      obtain ⟨he, rfl⟩ := Prod.mk.inj ((executes_parseExpression_iff hc).mp h)
      rw [Answer.expression.inj he]
      rfl
  · rintro rfl
    exact .expressionStatement ((executes_parseExpression_iff hc).mpr rfl)

theorem perform_parseStatement (p : Parser) :
    p.perform .parseStatement = p.perform (p.rules.statementRule p.current.kind).operation := by
  change (p.run (Reader.statement p.rules p.levels)).map Answer.statement id =
    p.perform (p.rules.statementRule p.cursor.current.kind).operation
  unfold run Reader.statement
  rw [Reader.bind_apply]
  simp only [Reader.current]
  cases p.rules.statementRule p.cursor.current.kind <;> rfl

theorem executes_parseStatement_iff (hc : p.cursor.Closed) :
    Executes (.operation .parseStatement) p result ↔ result = p.perform .parseStatement := by
  have hrule (rule : StatementRule) :
      Executes (.operation rule.operation) p result ↔ result = p.perform rule.operation := by
    cases rule with
    | letBinding => exact ⟨fun h => by cases h; rfl, fun h => h ▸ .letBinding⟩
    | returning => exact ⟨fun h => by cases h; rfl, fun h => h ▸ .returning⟩
    | expression => exact executes_parseExpressionStatement_iff hc
  rw [perform_parseStatement, ← hrule]
  constructor
  · intro h
    cases h with
    | statement h => exact h
  · exact .statement

theorem Executes.parseStatement_eq (hc : p.cursor.Closed) {s : Option Statement} {q : Parser}
    (h : Executes (.operation .parseStatement) p (.statement s, q)) :
    s = p.parseStatement.1 ∧ q = p.parseStatement.2 := by
  obtain ⟨hs, hq⟩ := Prod.mk.inj ((executes_parseStatement_iff hc).mp h)
  exact ⟨Answer.statement.inj hs, hq⟩

theorem closed_attempt (hc : p.cursor.Closed) : p.parseStatement.2.advance.2.cursor.Closed :=
  closed_advance (hc.of_reaches (p.reaches_perform .parseStatement))

theorem parseProgram_of_nil (h : p.cursor.ahead = []) : p.parseProgram = (⟨[]⟩, p) := by
  obtain ⟨⟨ahead, eof⟩, rules, depth, diagnostics⟩ := p
  obtain rfl : ahead = [] := h
  simp [parseProgram, attempts_nil, succeeded, failed]

theorem parseProgram_of_ne_nil (h : p.cursor.ahead ≠ []) :
    p.parseProgram = p.parseStatement.2.advance.2.parseProgram.map
      (fun program => ⟨p.parseStatement.1.toList ++ program.statements⟩) id := by
  obtain ⟨outcome, d, hout⟩ : ∃ outcome d, attempt p.rules p.levels p.cursor = (outcome, d) :=
    ⟨_, _, rfl⟩
  obtain ⟨hfound, hafter⟩ := p.attempt_eq_parseStatement hout
  refine Prod.ext ?_ ?_
  · rw [hfound, hafter]
    have hattempts := congrArg (fun outcomes => (⟨succeeded outcomes.1⟩ : Program))
      (attempts_of_attempt h hout)
    refine hattempts.trans ?_
    cases outcome <;> rfl
  · rw [hafter]
    exact p.parseProgram_of_attempt h hout

theorem Executes.eq_parseProgram (hc : p.cursor.Closed)
    (h : Executes (.operation .parseProgram) p result) : result = p.perform .parseProgram := by
  generalize hk : Routine.operation .parseProgram = k at h
  induction h with
  | @done p h =>
    have hnil := hc.current_kind_eq_eof_iff.mp h
    exact (congrArg (Prod.map Answer.program id) (parseProgram_of_nil hnil)).symm
  | @attempt p s q ss r h hs _ _ ih =>
    have hne : p.cursor.ahead ≠ [] := fun hnil => h (hc.current_kind_eq_eof_iff.mpr hnil)
    obtain ⟨rfl, rfl⟩ := hs.parseStatement_eq hc
    obtain ⟨hss, hr⟩ := Prod.mk.inj (ih (closed_attempt hc) rfl)
    have hrest : (⟨ss⟩, r) = p.parseStatement.2.advance.2.parseProgram :=
      Prod.ext (Answer.program.inj hss) hr
    change _ = p.parseProgram.map Answer.program id
    rw [parseProgram_of_ne_nil hne, ← hrest]
    rfl
  | _ => cases hk

theorem executes_parseProgram (hc : p.cursor.Closed) :
    Executes (.operation .parseProgram) p (p.perform .parseProgram) := by
  induction hn : p.remaining using Nat.strongRecOn generalizing p with
  | _ n ih =>
    by_cases h : p.current.kind = .eof
    · have hnil := hc.current_kind_eq_eof_iff.mp h
      change Executes _ _ (p.parseProgram.map Answer.program id)
      rw [parseProgram_of_nil hnil]
      exact .done h
    · have hne : p.cursor.ahead ≠ [] := fun hnil => h (hc.current_kind_eq_eof_iff.mpr hnil)
      have hlt := remaining_lt_of_parseStatement hc h
      change Executes _ _ (p.parseProgram.map Answer.program id)
      rw [parseProgram_of_ne_nil hne]
      exact .attempt h ((executes_parseStatement_iff hc).mpr rfl)
        (ih _ (hn ▸ hlt) (closed_attempt hc) rfl)

theorem executes_iff (hc : p.cursor.Closed) {o : Operation} (ho : o.Parses) :
    Executes (.operation o) p result ↔ result = p.perform o := by
  cases o with
  | parseProgram => exact ⟨fun h => h.eq_parseProgram hc, fun h => h ▸ executes_parseProgram hc⟩
  | parseStatement => exact executes_parseStatement_iff hc
  | parseLetBinding => exact ⟨fun h => by cases h; rfl, fun h => h ▸ .letBinding⟩
  | parseReturning => exact ⟨fun h => by cases h; rfl, fun h => h ▸ .returning⟩
  | parseExpressionStatement => exact executes_parseExpressionStatement_iff hc
  | parseExpression floor => exact executes_parseExpression_iff hc
  | parsePrimary => exact ⟨fun h => by cases h; rfl, fun h => h ▸ .primary⟩
  | parseUnary => exact executes_parseUnary_iff hc
  | parseGrouping => exact executes_parseGrouping_iff hc
  | parseBinary left power => exact executes_parseBinary_iff hc
  | advance | expect | report | enter | leave => exact ho.elim
  | registerStatement | registerOperand | registerOperator => exact ho.elim

theorem depth_perform (hc : p.cursor.Closed) {o : Operation} (ho : o.Parses) :
    (p.perform o).2.depth = p.depth :=
  ((executes_iff hc ho).mpr rfl).depth_eq

theorem depth_enter_le (h : p.depth ≤ nestingLimit) : p.enter.2.depth ≤ nestingLimit := by
  unfold enter
  split
  · next hlt => exact hlt
  · exact h

theorem depth_perform_le (hc : p.cursor.Closed) (h : p.depth ≤ nestingLimit) (o : Operation) :
    (p.perform o).2.depth ≤ nestingLimit := by
  by_cases ho : o.Parses
  · exact (depth_perform hc ho).trans_le h
  · cases o with
    | advance => exact (p.depth_run .advance).trans_le h
    | expect kind => exact (p.depth_run (.expect kind)).trans_le h
    | enter => exact depth_enter_le h
    | leave => exact (Nat.sub_le _ _).trans h
    | report | registerStatement | registerOperand | registerOperator => exact h
    | _ => exact absurd trivial ho

theorem depth_after_le (hc : p.cursor.Closed) (h : p.depth ≤ nestingLimit)
    (operations : List Operation) : (p.after operations).depth ≤ nestingLimit := by
  induction operations generalizing p with
  | nil => exact h
  | cons o operations ih => exact ih (hc.of_reaches (p.reaches_perform o)) (depth_perform_le hc h o)

theorem Attempts.depth_eq {q : Parser} (h : Attempts p q) : q.depth = p.depth := by
  induction h with
  | here _ => rfl
  | later _ hs _ ih => exact ih.trans ((depth_run _ _).trans hs.depth_eq)

theorem depth_balanced (source : String) (file : Option String) (operations : List Operation) :
    let p := (ofSource source file).after operations
    p.depth ≤ nestingLimit ∧
      (∀ o : Operation, o.Parses → (p.perform o).2.depth = p.depth ∧
        ∀ result, Executes (.operation o) p result ↔ result = p.perform o) ∧
      (∀ (k : Routine) (q : Parser) (result : Answer × Parser), Executes k q result →
        result.2.depth = q.depth) ∧
      ∀ q : Parser, Attempts (ofSource source file) q → q.depth = 0 ∧ q.levels = nestingLimit := by
  intro p
  have hc : p.cursor.Closed := closed_after source file operations
  have hlimit : p.depth ≤ nestingLimit :=
    depth_after_le (closed_after source file []) (Nat.zero_le _) operations
  refine ⟨hlimit, fun o ho => ⟨depth_perform hc ho, fun _ => executes_iff hc ho⟩,
    fun k q result h => h.depth_eq, fun q h => ?_⟩
  have hzero : q.depth = 0 := h.depth_eq
  exact ⟨hzero, congrArg (nestingLimit - ·) hzero⟩

end Parser

end ScriptFrontEnd
