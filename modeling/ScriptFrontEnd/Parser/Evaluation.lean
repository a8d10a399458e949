import ScriptFrontEnd.Parser.Expression

namespace ScriptFrontEnd

inductive Cursor.Skips : Cursor → Cursor → Prop
  | stop {c : Cursor} : c.current.kind = .semicolon ∨ c.current.kind = .eof → Skips c c
  | next {c d : Cursor} : c.current.kind ≠ .semicolon → c.current.kind ≠ .eof →
      Skips c.advance d → Skips c d

inductive Part where
  | whole (floor : Precedence)
  | lead
  | operator (left : Expr) (power : Precedence)
  | rest (floor : Precedence) (left : Expr)
  deriving DecidableEq, Repr

abbrev Ending := EStateM.Result Diagnostic Cursor Expr

/-- The part is read from the cursor on to the ending. `depth` expressions are open before, and
`height` more come to be open one inside the other. -/
inductive Evaluates (rules : Rules) : Part → (depth : Nat) → Cursor → (height : Nat) → Ending → Prop
  | refused {floor depth c} : nestingLimit ≤ depth →
      Evaluates rules (.whole floor) depth c 0 (Reader.fail (.nestingTooDeep nestingLimit) c)
  | whole {floor depth c m n left d r} : depth < nestingLimit →
      Evaluates rules .lead (depth + 1) c m (.ok left d) →
      Evaluates rules (.rest floor left) (depth + 1) d n r →
      Evaluates rules (.whole floor) depth c (max m n + 1) r
  | leadFails {floor depth c m e d} : depth < nestingLimit →
      Evaluates rules .lead (depth + 1) c m (.error e d) →
      Evaluates rules (.whole floor) depth c (m + 1) (.error e d)
  | unknown {depth c} : rules.operand c.current.kind = none →
      Evaluates rules .lead depth c 0 (Reader.fail (.noOperand c.current.kind) c)
  | primary {depth c} : rules.operand c.current.kind = some .primary →
      Evaluates rules .lead depth c 0 (Reader.primary c)
  | unary {depth c n r} : rules.operand c.current.kind = some .unary →
      Evaluates rules (.whole .unary) depth c.advance n r →
      Evaluates rules .lead depth c n (Reader.unary (fun _ _ => r) c)
  | grouping {depth c n r} : rules.operand c.current.kind = some .grouping →
      Evaluates rules (.whole .lowest) depth c.advance n r →
      Evaluates rules .lead depth c n (Reader.grouping (fun _ _ => r) c)
  | operator {left power depth c n r} : Evaluates rules (.whole power) depth c.advance n r →
      Evaluates rules (.operator left power) depth c n (Reader.binary (fun _ _ => r) left power c)
  | stop {floor left depth c} : ¬ floor < rules.precedence c.peek.kind →
      Evaluates rules (.rest floor left) depth c 0 (.ok left c)
  | more {floor left depth c m n e d r} : floor < rules.precedence c.peek.kind →
      Evaluates rules (.operator left (rules.precedence c.peek.kind)) depth c.advance m (.ok e d) →
      Evaluates rules (.rest floor e) depth d n r →
      Evaluates rules (.rest floor left) depth c (max m n) r
  | operatorFails {floor left depth c m e d} : floor < rules.precedence c.peek.kind →
      Evaluates rules (.operator left (rules.precedence c.peek.kind)) depth c.advance m
        (.error e d) →
      Evaluates rules (.rest floor left) depth c m (.error e d)

end ScriptFrontEnd
