import ScriptFrontEnd.Parser.Operation
import ScriptFrontEnd.Token.Scanner

namespace ScriptFrontEnd

/-- Enough fuel gives this result, and none gives another. -/
structure Settles {α : Type} (found : Nat → Option α) (a : α) : Prop where
  given : ∃ enough, ∀ fuel, enough ≤ fuel → found fuel = some a
  unique : ∀ fuel, ∀ b ∈ found fuel, b = a

structure PullParser where
  scanner : Scanner
  current : Token
  peek : Token
  rules : Rules
  depth : Nat
  diagnostics : List Diagnostic

namespace PullParser

def ofSource (source : String) (file : Option String) : Option PullParser := do
  let (current, scanner) ← (Scanner.ofSource source file).next?
  let (peek, scanner) ← scanner.next?
  return ⟨scanner, current, peek, .standard, 0, []⟩

def advance (p : PullParser) : Option (Token × PullParser) := do
  let (next, scanner) ← p.scanner.next?
  return (p.current, { p with scanner := scanner, current := p.peek, peek := next })

def report (p : PullParser) (d : Diagnostic) : PullParser :=
  { p with diagnostics := p.diagnostics ++ [d] }

def expect (p : PullParser) (kind : Kind) : Option (Option Token × PullParser) := do
  if p.peek.kind = kind then
    let (_, p) ← p.advance
    return (some p.current, p)
  else return (none, p.report ⟨.unexpectedToken kind p.peek.kind, p.peek.start⟩)

def enter (p : PullParser) : Bool × PullParser :=
  if nestingLimit ≤ p.depth then
    (false, p.report ⟨.nestingTooDeep nestingLimit, p.current.start⟩)
  else (true, { p with depth := p.depth + 1 })

def leave (p : PullParser) : PullParser :=
  { p with depth := p.depth - 1 }

def registerStatement (p : PullParser) (kind : Kind) (rule : StatementRule) : PullParser :=
  { p with rules := p.rules.withStatement kind rule }

def registerOperand (p : PullParser) (kind : Kind) (rule : OperandRule) : PullParser :=
  { p with rules := p.rules.withOperand kind rule }

def registerOperator (p : PullParser) (kind : Kind) (power : Precedence) : PullParser :=
  { p with rules := p.rules.withOperator kind power }

def parsePrimary (p : PullParser) : Option Expr × PullParser :=
  match p.current.kind with
  | .int =>
    match Numeral.value? p.current.text with
    | some value => (some (.integer p.current value), p)
    | none => (none, p.report ⟨.badNumeral p.current.text, p.current.start⟩)
  | .identifier => (some (.identifier ⟨p.current, p.current.text⟩), p)
  | .trueWord => (some (.boolean p.current true), p)
  | .falseWord => (some (.boolean p.current false), p)
  | kind => (none, p.report ⟨.noOperand kind, p.current.start⟩)

section Operand

variable (operand : Precedence → PullParser → Option (Option Expr × PullParser))

def parseUnary (p : PullParser) : Option (Option Expr × PullParser) := do
  let (operator, p) ← p.advance
  let (e, p) ← operand .unary p
  return (e.map (.unary operator operator.text), p)

def parseBinary (left : Expr) (power : Precedence) (p : PullParser) :
    Option (Option Expr × PullParser) := do
  let (operator, p) ← p.advance
  let (e, p) ← operand power p
  return (e.map (.binary operator left operator.text), p)

def parseGrouping (p : PullParser) : Option (Option Expr × PullParser) := do
  let (_, p) ← p.advance
  let (e, p) ← operand .lowest p
  match e with
  | none => return (none, p)
  | some e =>
    let (closing, p) ← p.expect .closeParen
    return (closing.map fun _ => e, p)

def parseLead (rule : OperandRule) (p : PullParser) : Option (Option Expr × PullParser) :=
  match rule with
  | .primary => some p.parsePrimary
  | .unary => parseUnary operand p
  | .grouping => parseGrouping operand p

end Operand

mutual

def parseExpression (fuel : Nat) (floor : Precedence) (p : PullParser) :
    Option (Option Expr × PullParser) :=
  match fuel with
  | 0 => none
  | fuel + 1 => do
    let (entered, p) := p.enter
    if entered then
      let (e, p) ← parseBody fuel floor p
      return (e, p.leave)
    else return (none, p)

def parseBody (fuel : Nat) (floor : Precedence) (p : PullParser) :
    Option (Option Expr × PullParser) :=
  match fuel with
  | 0 => none
  | fuel + 1 =>
    match p.rules.operand p.current.kind with
    | none => some (none, p.report ⟨.noOperand p.current.kind, p.current.start⟩)
    | some rule => do
      let (left, p) ← parseLead (parseExpression fuel) rule p
      match left with
      | none => return (none, p)
      | some left => parseOperators fuel floor left p

def parseOperators (fuel : Nat) (floor : Precedence) (left : Expr) (p : PullParser) :
    Option (Option Expr × PullParser) :=
  match fuel with
  | 0 => none
  | fuel + 1 =>
    if floor < p.rules.precedence p.peek.kind then do
      let (_, p) ← p.advance
      let (e, p) ← parseBinary (parseExpression fuel) left (p.rules.precedence p.current.kind) p
      match e with
      | none => return (none, p)
      | some e => parseOperators fuel floor e p
    else some (some left, p)

end

def skipToSemicolon (fuel : Nat) (p : PullParser) : Option PullParser :=
  match fuel with
  | 0 => none
  | fuel + 1 =>
    if p.current.kind = .semicolon ∨ p.current.kind = .eof then some p
    else do
      let (_, p) ← p.advance
      p.skipToSemicolon fuel

def parseLetBinding (fuel : Nat) (p : PullParser) : Option (Option Statement × PullParser) := do
  let token := p.current
  let (name, p) ← p.expect .identifier
  match name with
  | none => return (none, p)
  | some name =>
    let (assignment, p) ← p.expect .assignment
    match assignment with
    | none => return (none, p)
    | some _ =>
      let p ← p.skipToSemicolon fuel
      return (some (.letBinding token ⟨name, name.text⟩ none), p)

def parseReturning (fuel : Nat) (p : PullParser) : Option (Option Statement × PullParser) := do
  let token := p.current
  let p ← p.skipToSemicolon fuel
  return (some (.returning token none), p)

def parseExpressionStatement (fuel : Nat) (p : PullParser) :
    Option (Option Statement × PullParser) := do
  let token := p.current
  let (e, p) ← parseExpression fuel .lowest p
  if p.peek.kind = .semicolon then
    let (_, p) ← p.advance
    return (e.map (.expression token), p)
  else return (e.map (.expression token), p)

def parseStatement (fuel : Nat) (p : PullParser) : Option (Option Statement × PullParser) :=
  match p.rules.statementRule p.current.kind with
  | .letBinding => p.parseLetBinding fuel
  | .returning => p.parseReturning fuel
  | .expression => p.parseExpressionStatement fuel

def parseProgram (fuel : Nat) (p : PullParser) : Option (Program × PullParser) :=
  match fuel with
  | 0 => none
  | fuel + 1 =>
    if p.current.kind = .eof then some (⟨[]⟩, p)
    else do
      let (s, p) ← p.parseStatement fuel
      let (_, p) ← p.advance
      let (program, p) ← p.parseProgram fuel
      return (⟨s.toList ++ program.statements⟩, p)

def perform (fuel : Nat) (p : PullParser) : Operation → Option (Answer × PullParser)
  | .advance => p.advance.map (·.map (.token ∘ some) id)
  | .expect kind => (p.expect kind).map (·.map .token id)
  | .report d => some (.done, p.report d)
  | .enter => some (p.enter.map .entered id)
  | .leave => some (.done, p.leave)
  | .registerStatement kind rule => some (.done, p.registerStatement kind rule)
  | .registerOperand kind rule => some (.done, p.registerOperand kind rule)
  | .registerOperator kind power => some (.done, p.registerOperator kind power)
  | .parseProgram => (p.parseProgram fuel).map (·.map .program id)
  | .parseStatement => (p.parseStatement fuel).map (·.map .statement id)
  | .parseLetBinding => (p.parseLetBinding fuel).map (·.map .statement id)
  | .parseReturning => (p.parseReturning fuel).map (·.map .statement id)
  | .parseExpressionStatement => (p.parseExpressionStatement fuel).map (·.map .statement id)
  | .parseExpression floor => (parseExpression fuel floor p).map (·.map .expression id)
  | .parsePrimary => some (p.parsePrimary.map .expression id)
  | .parseUnary => (parseUnary (parseExpression fuel) p).map (·.map .expression id)
  | .parseGrouping => (parseGrouping (parseExpression fuel) p).map (·.map .expression id)
  | .parseBinary left power =>
    (parseBinary (parseExpression fuel) left power p).map (·.map .expression id)

def after (fuel : Nat) (p : PullParser) (operations : List Operation) : Option PullParser :=
  operations.foldlM (fun p o => (p.perform fuel o).map Prod.snd) p

end PullParser

end ScriptFrontEnd
