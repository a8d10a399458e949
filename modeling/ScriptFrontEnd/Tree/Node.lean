import ScriptFrontEnd.Tree.Basic

namespace ScriptFrontEnd

inductive Node where
  | program (p : Program)
  | statement (s : Statement)
  | name (n : Identifier)
  | expression (e : Expr)
  deriving DecidableEq, Repr

def Program.literal (p : Program) : String :=
  (p.statements.head?.map (·.token.text)).getD ""

namespace Node

def literal : Node → String
  | program p => p.literal
  | statement s => s.token.text
  | name n => n.token.text
  | expression e => e.token.text

def render : Node → String
  | program p => p.render
  | statement s => s.render
  | name n => n.value
  | expression e => e.render

end Node

def Expr.nodes : Expr → List Node
  | e@(unary _ _ right) => .expression e :: right.nodes
  | e@(binary _ left _ right) => .expression e :: (left.nodes ++ right.nodes)
  | e => [.expression e]

def Statement.nodes (s : Statement) : List Node :=
  .statement s :: match s with
    | letBinding _ name value => .name name :: (value.map Expr.nodes).getD []
    | returning _ value => (value.map Expr.nodes).getD []
    | expression _ expr => expr.nodes

def Program.nodes (p : Program) : List Node :=
  .program p :: p.statements.flatMap Statement.nodes

end ScriptFrontEnd
