import ScriptFrontEnd.Parser.Expression

namespace ScriptFrontEnd.Reader

def letBinding : Reader Statement := do
  let token ← current
  let name ← expect .identifier
  let _ ← expect .assignment
  move Cursor.skipToSemicolon
  return .letBinding token ⟨name, name.text⟩ none

def returning : Reader Statement := do
  let token ← current
  move Cursor.skipToSemicolon
  return .returning token none

/-- A semicolon behind the expression is passed even when the expression is not well formed, so
that it is not reported once more. -/
def expressionStatement (rules : Rules) (levels : Nat) : Reader Statement := do
  let token ← current
  let expr ← (expression rules levels .lowest).andThen Cursor.passSemicolon
  return .expression token expr

def statement (rules : Rules) (levels : Nat) : Reader Statement := do
  let token ← current
  match rules.statementRule token.kind with
  | .letBinding => letBinding
  | .returning => returning
  | .expression => expressionStatement rules levels

namespace Forward

theorem letBinding : Forward letBinding :=
  .bind .current fun _ => .bind (.expect _) fun _ => .bind (.expect _) fun _ =>
    .bind (.move Cursor.reaches_skipToSemicolon) fun _ => .pure _

theorem returning : Forward returning :=
  .bind .current fun _ => .bind (.move Cursor.reaches_skipToSemicolon) fun _ => .pure _

theorem expressionStatement (rules : Rules) (levels : Nat) :
    Forward (expressionStatement rules levels) :=
  .bind .current fun _ =>
    .bind (.andThen (.expression rules levels _) Cursor.reaches_passSemicolon) fun _ => .pure _

theorem statement (rules : Rules) (levels : Nat) : Forward (statement rules levels) := by
  refine .bind .current fun token => ?_
  split
  · exact .letBinding
  · exact .returning
  · exact .expressionStatement rules levels

end Forward

end ScriptFrontEnd.Reader
