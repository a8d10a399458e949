import ScriptFrontEnd.Parser.Operation

namespace ScriptFrontEnd

inductive Routine where
  | operation (o : Operation)
  | body (floor : Precedence)
  | operators (floor : Precedence) (left : Expr)
  deriving DecidableEq, Repr

def OperandRule.operation : OperandRule → Operation
  | primary => .parsePrimary
  | unary => .parseUnary
  | grouping => .parseGrouping

def StatementRule.operation : StatementRule → Operation
  | letBinding => .parseLetBinding
  | returning => .parseReturning
  | expression => .parseExpressionStatement

namespace Parser

def passSemicolon (p : Parser) : Parser := { p with cursor := p.cursor.passSemicolon }

inductive Executes : Routine → Parser → Answer × Parser → Prop
  | refused {floor p q} : p.enter = (false, q) →
      Executes (.operation (.parseExpression floor)) p (.expression none, q)
  | entered {floor p q answer r} : p.enter = (true, q) → Executes (.body floor) q (answer, r) →
      Executes (.operation (.parseExpression floor)) p (answer, r.leave)
  | unknown {floor p} : p.rules.operand p.current.kind = none →
      Executes (.body floor) p
        (.expression none, p.report ⟨.noOperand p.current.kind, p.position⟩)
  | operand {floor p rule left q result} : p.rules.operand p.current.kind = some rule →
      Executes (.operation rule.operation) p (.expression (some left), q) →
      Executes (.operators floor left) q result → Executes (.body floor) p result
  | operandFails {floor p rule q} : p.rules.operand p.current.kind = some rule →
      Executes (.operation rule.operation) p (.expression none, q) →
      Executes (.body floor) p (.expression none, q)
  | stop {floor left p} : ¬ floor < p.peekPrecedence →
      Executes (.operators floor left) p (.expression (some left), p)
  | more {floor left p e q result} : floor < p.peekPrecedence →
      Executes (.operation (.parseBinary left p.advance.2.currentPrecedence)) p.advance.2
        (.expression (some e), q) →
      Executes (.operators floor e) q result → Executes (.operators floor left) p result
  | operatorFails {floor left p q} : floor < p.peekPrecedence →
      Executes (.operation (.parseBinary left p.advance.2.currentPrecedence)) p.advance.2
        (.expression none, q) →
      Executes (.operators floor left) p (.expression none, q)
  | primary {p} : Executes (.operation .parsePrimary) p (p.perform .parsePrimary)
  | unary {p e q} :
      Executes (.operation (.parseExpression .unary)) p.advance.2 (.expression e, q) →
      Executes (.operation .parseUnary) p
        (.expression (e.map (.unary p.current p.current.text)), q)
  | grouping {p e q} :
      Executes (.operation (.parseExpression .lowest)) p.advance.2 (.expression (some e), q) →
      Executes (.operation .parseGrouping) p
        (.expression ((q.expect .closeParen).1.map fun _ => e), (q.expect .closeParen).2)
  | groupFails {p q} :
      Executes (.operation (.parseExpression .lowest)) p.advance.2 (.expression none, q) →
      Executes (.operation .parseGrouping) p (.expression none, q)
  | binary {left power p e q} :
      Executes (.operation (.parseExpression power)) p.advance.2 (.expression e, q) →
      Executes (.operation (.parseBinary left power)) p
        (.expression (e.map (.binary p.current left p.current.text)), q)
  | letBinding {p} : Executes (.operation .parseLetBinding) p (p.perform .parseLetBinding)
  | returning {p} : Executes (.operation .parseReturning) p (p.perform .parseReturning)
  | expressionStatement {p e q} :
      Executes (.operation (.parseExpression .lowest)) p (.expression e, q) →
      Executes (.operation .parseExpressionStatement) p
        (.statement (e.map (.expression p.current)), q.passSemicolon)
  | statement {p result} :
      Executes (.operation (p.rules.statementRule p.current.kind).operation) p result →
      Executes (.operation .parseStatement) p result
  | done {p} : p.current.kind = .eof → Executes (.operation .parseProgram) p (.program ⟨[]⟩, p)
  | attempt {p s q ss r} : p.current.kind ≠ .eof →
      Executes (.operation .parseStatement) p (.statement s, q) →
      Executes (.operation .parseProgram) q.advance.2 (.program ⟨ss⟩, r) →
      Executes (.operation .parseProgram) p (.program ⟨s.toList ++ ss⟩, r)

inductive Attempts : Parser → Parser → Prop
  | here {p} : p.current.kind ≠ .eof → Attempts p p
  | later {p s q r} : p.current.kind ≠ .eof →
      Executes (.operation .parseStatement) p (.statement s, q) → Attempts q.advance.2 r →
      Attempts p r

end Parser

end ScriptFrontEnd
