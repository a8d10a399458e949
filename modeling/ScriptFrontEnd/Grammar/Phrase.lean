import ScriptFrontEnd.Parser.Rules
import ScriptFrontEnd.Tree.Tokens

namespace ScriptFrontEnd

inductive Phrase where
  | leaf (token : Token)
  | unary (operator : Token) (operand : Phrase)
  | binary (left : Phrase) (operator : Token) (right : Phrase)
  | group (opening : Token) (inner : Phrase) (closing : Token)
  deriving DecidableEq, Repr

namespace Phrase

def tokens : Phrase → List Token
  | leaf token => [token]
  | unary operator operand => operator :: operand.tokens
  | binary left operator right => left.tokens ++ operator :: right.tokens
  | group opening inner closing => opening :: (inner.tokens ++ [closing])

theorem tokens_ne_nil (w : Phrase) : w.tokens ≠ [] := by
  cases w <;> simp [tokens]

def operators : Phrase → List Token
  | binary left operator right => left.operators ++ operator :: right.operators
  | _ => []

def Above (rules : Rules) (floor : Precedence) (w : Phrase) : Prop :=
  ∀ t ∈ w.operators, floor < rules.precedence t.kind

def WellFormed (rules : Rules) : Phrase → Prop
  | leaf token => rules.operand token.kind = some .primary
  | unary operator operand =>
    rules.operand operator.kind = some .unary ∧ operand.WellFormed rules ∧
      operand.Above rules .unary
  | binary left operator right =>
    left.WellFormed rules ∧ right.WellFormed rules ∧
      .lowest < rules.precedence operator.kind ∧
      (∀ t ∈ left.operators, rules.precedence operator.kind ≤ rules.precedence t.kind) ∧
      right.Above rules (rules.precedence operator.kind)
  | group opening inner closing =>
    rules.operand opening.kind = some .grouping ∧ closing.kind = .closeParen ∧
      inner.WellFormed rules

/-- The number of expressions that are open at once. A left operand is open no deeper than its
application. -/
def nesting : Phrase → Nat
  | leaf _ => 1
  | unary _ operand => operand.nesting + 1
  | binary left _ right => max left.nesting (right.nesting + 1)
  | group _ inner _ => inner.nesting + 1

theorem nesting_pos (w : Phrase) : 0 < w.nesting := by
  induction w with
  | leaf _ => simp [nesting]
  | unary _ _ _ => simp [nesting]
  | binary _ _ _ _ _ => simp only [nesting]; omega
  | group _ _ _ _ => simp [nesting]

inductive Denotes : Phrase → Expr → Prop
  | identifier {t} : t.kind = .identifier → Denotes (leaf t) (.identifier ⟨t, t.text⟩)
  | integer {t v} : t.kind = .int → Numeral.value? t.text = some v → Denotes (leaf t) (.integer t v)
  | isTrue {t} : t.kind = .trueWord → Denotes (leaf t) (.boolean t true)
  | isFalse {t} : t.kind = .falseWord → Denotes (leaf t) (.boolean t false)
  | unary {t w e} : Denotes w e → Denotes (unary t w) (.unary t t.text e)
  | binary {t w x e f} : Denotes w e → Denotes x f →
      Denotes (binary w t x) (.binary t e t.text f)
  | group {o c w e} : Denotes w e → Denotes (group o w c) e

theorem Denotes.unique {w : Phrase} {e f : Expr} (he : Denotes w e) (hf : Denotes w f) :
    e = f := by
  induction he generalizing f with
  | identifier h => cases hf <;> simp_all
  | integer h hv => cases hf <;> simp_all
  | isTrue h => cases hf <;> simp_all
  | isFalse h => cases hf <;> simp_all
  | unary _ ih =>
    cases hf with
    | unary h => rw [ih h]
  | binary _ _ ihl ihr =>
    cases hf with
    | binary hl hr => rw [ihl hl, ihr hr]
  | group _ ih =>
    cases hf with
    | group h => exact ih h

end Phrase

inductive Skipped : List Token → List Token → Prop
  | closed {value t rest} : (∀ u ∈ value, u.kind ≠ .semicolon) → t.kind = .semicolon →
      Skipped (value ++ t :: rest) rest
  | unclosed {value} : (∀ u ∈ value, u.kind ≠ .semicolon) → Skipped value []

def Stops (rules : Rules) (floor : Precedence) (rest : List Token) : Prop :=
  ∀ t ∈ rest.head?, rules.precedence t.kind ≤ floor

inductive Segment (rules : Rules) (limit : Nat) : List Token → Statement → List Token → Prop
  | letBinding {t n a tokens rest} :
      rules.statementRule t.kind = .letBinding → n.kind = .identifier → a.kind = .assignment →
      Skipped tokens rest →
      Segment rules limit (t :: n :: a :: tokens) (.letBinding t ⟨n, n.text⟩ none) rest
  | returning {t tokens rest} :
      rules.statementRule t.kind = .returning → Skipped (t :: tokens) rest →
      Segment rules limit (t :: tokens) (.returning t none) rest
  | terminated {w : Phrase} {e t s tokens rest} :
      rules.statementRule t.kind = .expression → w.tokens = t :: tokens →
      w.WellFormed rules → w.Denotes e → w.nesting ≤ limit →
      s.kind = .semicolon → Stops rules .lowest (s :: rest) →
      Segment rules limit (w.tokens ++ s :: rest) (.expression t e) rest
  | unterminated {w : Phrase} {e t tokens rest} :
      rules.statementRule t.kind = .expression → w.tokens = t :: tokens →
      w.WellFormed rules → w.Denotes e → w.nesting ≤ limit →
      (∀ u ∈ rest.head?, u.kind ≠ .semicolon) → Stops rules .lowest rest →
      Segment rules limit (w.tokens ++ rest) (.expression t e) rest

inductive Segments (rules : Rules) (limit : Nat) : List Token → List Statement → Prop
  | nil : Segments rules limit [] []
  | cons {tokens s rest ss} : Segment rules limit tokens s rest → Segments rules limit rest ss →
      Segments rules limit tokens (s :: ss)

end ScriptFrontEnd
