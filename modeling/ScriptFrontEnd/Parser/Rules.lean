import ScriptFrontEnd.Parser.Precedence
import ScriptFrontEnd.Token.Kind

namespace ScriptFrontEnd

inductive OperandRule where
  | primary | unary | grouping
  deriving DecidableEq, Repr

inductive StatementRule where
  | letBinding | returning | expression
  deriving DecidableEq, Repr

structure Rules where
  statement : Kind → Option StatementRule
  operand : Kind → Option OperandRule
  operator : Kind → Option Precedence

namespace Rules

def precedence (r : Rules) (k : Kind) : Precedence :=
  (r.operator k).getD .lowest

def statementRule (r : Rules) (k : Kind) : StatementRule :=
  (r.statement k).getD .expression

def standard : Rules where
  statement
    | .letWord => some .letBinding
    | .returnWord => some .returning
    | _ => none
  operand
    | .identifier | .int | .trueWord | .falseWord => some .primary
    | .not | .dash => some .unary
    | .openParen => some .grouping
    | _ => none
  operator
    | .equals | .notEquals => some .equality
    | .less | .greater => some .relational
    | .plus | .dash => some .additive
    | .star | .slash => some .multiplicative
    | _ => none

def withStatement (r : Rules) (kind : Kind) (rule : StatementRule) : Rules :=
  { r with statement := fun k => if k = kind then some rule else r.statement k }

def withOperand (r : Rules) (kind : Kind) (rule : OperandRule) : Rules :=
  { r with operand := fun k => if k = kind then some rule else r.operand k }

def withOperator (r : Rules) (kind : Kind) (p : Precedence) : Rules :=
  { r with operator := fun k => if k = kind then some p else r.operator k }

end Rules

end ScriptFrontEnd
