import ScriptFrontEnd.Diagnostic.Basic
import ScriptFrontEnd.Grammar.Phrase

namespace ScriptFrontEnd

inductive Fragment where
  | operand
  | unary (operator : Token) (right : Fragment)
  | binary (left : Phrase) (operator : Token) (right : Fragment)
  | group (opening : Token) (inner : Fragment)
  | unclosed (opening : Token) (inner : Phrase)
  deriving DecidableEq, Repr

namespace Fragment

def tokens : Fragment → List Token
  | operand => []
  | unary operator right => operator :: right.tokens
  | binary left operator right => left.tokens ++ operator :: right.tokens
  | group opening inner => opening :: inner.tokens
  | unclosed opening inner => opening :: inner.tokens

def held : Fragment → List Token
  | operand => []
  | unary _ right => right.held
  | binary _ _ right => right.held
  | group _ inner => inner.held
  | unclosed _ inner => [inner.tokens.getLast inner.tokens_ne_nil]

def opened : Fragment → Nat
  | operand => 0
  | unary _ right => right.opened + 1
  | binary _ _ right => right.opened + 1
  | group _ inner => inner.opened + 1
  | unclosed _ _ => 1

end Fragment

inductive Rules.Refuses (rules : Rules) (t : Token) : Cause → Prop
  | unknown : rules.operand t.kind = none → Refuses rules t (.noOperand t.kind)
  | unfit : rules.operand t.kind = some .primary →
      t.kind ∉ [.identifier, .int, .trueWord, .falseWord] → Refuses rules t (.noOperand t.kind)
  | numeral : rules.operand t.kind = some .primary → t.kind = .int →
      Numeral.value? t.text = none → Refuses rules t (.badNumeral t.text)

/-- With operators that bind tighter than `floor` and at most `levels` expressions open at once, the
fragment cannot go on with `next`. -/
inductive Breaks (rules : Rules) (next : Token) :
    (levels : Nat) → (floor : Precedence) → Fragment → Cause → Prop
  | tooDeep {floor} : Breaks rules next 0 floor .operand (.nestingTooDeep 256)
  | refused {levels floor cause} : rules.Refuses next cause →
      Breaks rules next (levels + 1) floor .operand cause
  | unary {levels floor t f cause} : rules.operand t.kind = some .unary →
      Breaks rules next levels .unary f cause →
      Breaks rules next (levels + 1) floor (.unary t f) cause
  | group {levels floor o f cause} : rules.operand o.kind = some .grouping →
      Breaks rules next levels .lowest f cause →
      Breaks rules next (levels + 1) floor (.group o f) cause
  | unclosed {levels floor o w e} : rules.operand o.kind = some .grouping →
      w.WellFormed rules → w.Denotes e → w.nesting ≤ levels →
      rules.precedence next.kind ≤ .lowest → next.kind ≠ .closeParen →
      Breaks rules next (levels + 1) floor (.unclosed o w) (.unexpectedToken .closeParen next.kind)
  | binary {levels floor l e o f cause} : l.WellFormed rules → l.Denotes e →
      l.nesting ≤ levels + 1 → l.Above rules floor → floor < rules.precedence o.kind →
      (∀ t ∈ l.operators, rules.precedence o.kind ≤ rules.precedence t.kind) →
      Breaks rules next levels (rules.precedence o.kind) f cause →
      Breaks rules next (levels + 1) floor (.binary l o f) cause

end ScriptFrontEnd
