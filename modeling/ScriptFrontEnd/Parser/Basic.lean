import ScriptFrontEnd.Parser.Attempts

namespace ScriptFrontEnd

structure Parser where
  cursor : Cursor
  rules : Rules
  depth : Nat
  diagnostics : List Diagnostic

namespace Parser

def ofLexer (l : Lexer) : Parser :=
  ⟨Cursor.ofLexer l, .standard, 0, []⟩

def ofSource (source : String) (file : Option String) : Parser :=
  ofLexer (Lexer.ofSource source file)

def current (p : Parser) : Token := p.cursor.current

def peek (p : Parser) : Token := p.cursor.peek

def position (p : Parser) : Position := p.current.start

def currentPrecedence (p : Parser) : Precedence := p.rules.precedence p.current.kind

def peekPrecedence (p : Parser) : Precedence := p.rules.precedence p.peek.kind

def messages (p : Parser) : List String :=
  p.diagnostics.map (·.cause.message)

def report (p : Parser) (d : Diagnostic) : Parser :=
  { p with diagnostics := p.diagnostics ++ [d] }

def levels (p : Parser) : Nat := nestingLimit - p.depth

def enter (p : Parser) : Bool × Parser :=
  if p.depth < nestingLimit then (true, { p with depth := p.depth + 1 })
  else (false, p.report ⟨.nestingTooDeep nestingLimit, p.position⟩)

def leave (p : Parser) : Parser :=
  { p with depth := p.depth - 1 }

def registerStatement (p : Parser) (kind : Kind) (rule : StatementRule) : Parser :=
  { p with rules := p.rules.withStatement kind rule }

def registerOperand (p : Parser) (kind : Kind) (rule : OperandRule) : Parser :=
  { p with rules := p.rules.withOperand kind rule }

def registerOperator (p : Parser) (kind : Kind) (power : Precedence) : Parser :=
  { p with rules := p.rules.withOperator kind power }

variable {α : Type}

def run (p : Parser) (x : Reader α) : Option α × Parser :=
  match x p.cursor with
  | .ok a c => (some a, { p with cursor := c })
  | .error d c => (none, { p with cursor := c, diagnostics := p.diagnostics ++ [d] })

@[simp] theorem rules_run (p : Parser) (x : Reader α) : (p.run x).2.rules = p.rules := by
  unfold run
  split <;> rfl

@[simp] theorem depth_run (p : Parser) (x : Reader α) : (p.run x).2.depth = p.depth := by
  unfold run
  split <;> rfl

@[simp] theorem cursor_run (p : Parser) (x : Reader α) :
    (p.run x).2.cursor = x.leaves p.cursor := by
  unfold run Reader.leaves
  cases x p.cursor <;> rfl

def advance (p : Parser) : Option Token × Parser := p.run .advance

def expect (p : Parser) (kind : Kind) : Option Token × Parser := p.run (.expect kind)

def operand (p : Parser) : Precedence → Reader Expr := .expression p.rules p.levels

def parseExpression (p : Parser) (floor : Precedence) : Option Expr × Parser :=
  p.run (p.operand floor)

def parsePrimary (p : Parser) : Option Expr × Parser := p.run .primary

def parseUnary (p : Parser) : Option Expr × Parser := p.run (.unary p.operand)

def parseGrouping (p : Parser) : Option Expr × Parser := p.run (.grouping p.operand)

def parseBinary (p : Parser) (left : Expr) (power : Precedence) : Option Expr × Parser :=
  p.run (.binary p.operand left power)

def parseStatement (p : Parser) : Option Statement × Parser :=
  p.run (.statement p.rules p.levels)

def parseLetBinding (p : Parser) : Option Statement × Parser := p.run .letBinding

def parseReturning (p : Parser) : Option Statement × Parser := p.run .returning

def parseExpressionStatement (p : Parser) : Option Statement × Parser :=
  p.run (.expressionStatement p.rules p.levels)

def parseProgram (p : Parser) : Program × Parser :=
  let (outcomes, c) := attempts p.rules p.levels p.cursor
  (⟨succeeded outcomes⟩, { p with cursor := c, diagnostics := p.diagnostics ++ failed outcomes })

end Parser

def parse (source : String) (file : Option String) : Program × List Diagnostic :=
  let (program, parser) := (Parser.ofSource source file).parseProgram
  (program, parser.diagnostics)

end ScriptFrontEnd
