import ScriptFrontEnd.Parser.Basic

namespace ScriptFrontEnd

inductive Operation where
  | advance
  | expect (kind : Kind)
  | report (d : Diagnostic)
  | enter
  | leave
  | registerStatement (kind : Kind) (rule : StatementRule)
  | registerOperand (kind : Kind) (rule : OperandRule)
  | registerOperator (kind : Kind) (power : Precedence)
  | parseProgram
  | parseStatement
  | parseLetBinding
  | parseReturning
  | parseExpressionStatement
  | parseExpression (floor : Precedence)
  | parsePrimary
  | parseUnary
  | parseGrouping
  | parseBinary (left : Expr) (power : Precedence)
  deriving DecidableEq, Repr

inductive Answer where
  | done
  | entered (success : Bool)
  | token (t : Option Token)
  | expression (e : Option Expr)
  | statement (s : Option Statement)
  | program (p : Program)
  deriving DecidableEq, Repr

namespace Parser

def perform (p : Parser) : Operation → Answer × Parser
  | .advance => p.advance.map .token id
  | .expect kind => (p.expect kind).map .token id
  | .report d => (.done, p.report d)
  | .enter => p.enter.map .entered id
  | .leave => (.done, p.leave)
  | .registerStatement kind rule => (.done, p.registerStatement kind rule)
  | .registerOperand kind rule => (.done, p.registerOperand kind rule)
  | .registerOperator kind power => (.done, p.registerOperator kind power)
  | .parseProgram => p.parseProgram.map .program id
  | .parseStatement => p.parseStatement.map .statement id
  | .parseLetBinding => p.parseLetBinding.map .statement id
  | .parseReturning => p.parseReturning.map .statement id
  | .parseExpressionStatement => p.parseExpressionStatement.map .statement id
  | .parseExpression floor => (p.parseExpression floor).map .expression id
  | .parsePrimary => p.parsePrimary.map .expression id
  | .parseUnary => p.parseUnary.map .expression id
  | .parseGrouping => p.parseGrouping.map .expression id
  | .parseBinary left power => (p.parseBinary left power).map .expression id

def after (p : Parser) (operations : List Operation) : Parser :=
  operations.foldl (fun p o => (p.perform o).2) p

end Parser

end ScriptFrontEnd
