import ScriptFrontEnd.Parser.Reader
import ScriptFrontEnd.Parser.Rules
import ScriptFrontEnd.Tree.Basic

namespace ScriptFrontEnd

def nestingLimit : Nat := 256

namespace Reader

def primary : Reader Expr := do
  let token ← current
  match token.kind with
  | .int =>
    match Numeral.value? token.text with
    | some value => return .integer token value
    | none => fail (.badNumeral token.text)
  | .identifier => return .identifier ⟨token, token.text⟩
  | .trueWord => return .boolean token true
  | .falseWord => return .boolean token false
  | kind => fail (.noOperand kind)

section Compound

variable (operand : Precedence → Reader Expr)

def unary : Reader Expr := do
  let token ← advance
  let right ← operand .unary
  return .unary token token.text right

def binary (left : Expr) (p : Precedence) : Reader Expr := do
  let token ← advance
  let right ← operand p
  return .binary token left token.text right

def grouping : Reader Expr := do
  let _ ← advance
  let inner ← operand .lowest
  let _ ← expect .closeParen
  return inner

def lead (rules : Rules) : Reader Expr := do
  let token ← current
  match rules.operand token.kind with
  | none => fail (.noOperand token.kind)
  | some .primary => primary
  | some .unary => unary operand
  | some .grouping => grouping operand

def extend (rules : Rules) (floor : Precedence) : List Token → Expr → Reader Expr
  | [], left => return left
  | _ :: bound, left => do
    let next ← peek
    let p := rules.precedence next.kind
    if floor < p then
      let _ ← advance
      let left ← binary operand left p
      extend rules floor bound left
    else return left

end Compound

/-- An expression in which all operators outside of parentheses bind tighter than `floor`, with at
most `levels` expressions open at once. Each operator takes a token of its own, so that the tokens
ahead bound the operators. -/
def expression (rules : Rules) : (levels : Nat) → (floor : Precedence) → Reader Expr
  | 0, _ => fail (.nestingTooDeep nestingLimit)
  | levels + 1, floor => do
    let operand := expression rules levels
    let left ← lead operand rules
    let bound ← ahead
    extend operand rules floor bound left

namespace Forward

theorem primary : Forward primary := by
  refine .bind .current fun token => ?_
  repeat' split
  all_goals first | exact .pure _ | exact .fail _

variable {operand : Precedence → Reader Expr} (h : ∀ p, Forward (operand p))

include h

theorem unary : Forward (unary operand) :=
  .bind .advance fun _ => .bind (h _) fun _ => .pure _

theorem binary (left : Expr) (p : Precedence) : Forward (binary operand left p) :=
  .bind .advance fun _ => .bind (h _) fun _ => .pure _

theorem grouping : Forward (grouping operand) :=
  .bind .advance fun _ => .bind (h _) fun _ => .bind (.expect _) fun _ => .pure _

theorem lead (rules : Rules) : Forward (lead operand rules) := by
  refine .bind .current fun token => ?_
  split
  · exact .fail _
  · exact .primary
  · exact .unary h
  · exact .grouping h

theorem extend (rules : Rules) (floor : Precedence) (bound : List Token) :
    ∀ left, Forward (extend operand rules floor bound left) := by
  induction bound with
  | nil => exact fun left => .pure left
  | cons _ bound ih =>
    intro left
    refine .bind .peek fun next => ?_
    dsimp only
    split
    · exact .bind .advance fun _ => .bind (.binary h left _) ih
    · exact .pure left

omit h

theorem expression (rules : Rules) (levels : Nat) :
    ∀ floor, Forward (expression rules levels floor) := by
  induction levels with
  | zero => exact fun _ => .fail _
  | succ levels ih =>
    exact fun floor => .bind (.lead ih rules) fun left =>
      .bind .ahead fun bound => .extend ih rules floor bound left

end Forward

end Reader

end ScriptFrontEnd
