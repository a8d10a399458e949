import ScriptFrontEnd.Token.Basic

namespace ScriptFrontEnd

structure Identifier where
  token : Token
  value : String
  deriving DecidableEq, Repr

inductive Expr where
  | identifier (name : Identifier)
  | integer (token : Token) (value : Int64)
  | boolean (token : Token) (value : Bool)
  | unary (token : Token) (operator : String) (right : Expr)
  | binary (token : Token) (left : Expr) (operator : String) (right : Expr)
  deriving DecidableEq, Repr

inductive Statement where
  | letBinding (token : Token) (name : Identifier) (value : Option Expr)
  | returning (token : Token) (value : Option Expr)
  | expression (token : Token) (expr : Expr)
  deriving DecidableEq, Repr

structure Program where
  statements : List Statement
  deriving DecidableEq, Repr

def Expr.token : Expr → Token
  | identifier name => name.token
  | integer token _ => token
  | boolean token _ => token
  | unary token _ _ => token
  | binary token _ _ _ => token

def Statement.token : Statement → Token
  | letBinding token _ _ => token
  | returning token _ => token
  | expression token _ => token

namespace Program

def size (p : Program) : Nat := p.statements.length

def isEmpty (p : Program) : Bool := p.statements.isEmpty

end Program

def Expr.render : Expr → String
  | identifier name => name.value
  | integer token _ => token.text
  | boolean token _ => token.text
  | unary _ operator right => "(" ++ operator ++ right.render ++ ")"
  | binary _ left operator right =>
    "(" ++ left.render ++ " " ++ operator ++ " " ++ right.render ++ ")"

def renderValue (value : Option Expr) : String :=
  (value.map Expr.render).getD ""

def Statement.render : Statement → String
  | letBinding token name value =>
    token.text ++ " " ++ name.value ++ " = " ++ renderValue value ++ ";"
  | returning token value => token.text ++ " " ++ renderValue value ++ ";"
  | expression _ expr => expr.render

def Program.render (p : Program) : String :=
  String.join (p.statements.map Statement.render)

end ScriptFrontEnd
