import ScriptFrontEnd.Grammar.Phrase

namespace ScriptFrontEnd

namespace Kind

def operators : List Kind :=
  [equals, notEquals, less, greater, plus, dash, star, slash]

end Kind

inductive Layer where
  | equality | relational | additive | multiplicative | unary | primary
  deriving DecidableEq, Repr

namespace Layer

def tighter : Layer → Layer
  | equality => relational
  | relational => additive
  | additive => multiplicative
  | multiplicative => unary
  | unary => primary
  | primary => primary

def operators : Layer → List Kind
  | equality => [.equals, .notEquals]
  | relational => [.less, .greater]
  | additive => [.plus, .dash]
  | multiplicative => [.star, .slash]
  | unary => []
  | primary => []

inductive Derives : Layer → Phrase → Prop
  | leaf {t : Token} : t.kind ∈ [.identifier, .int, .trueWord, .falseWord] →
      Derives primary (.leaf t)
  | group {o w c} : o.kind = .openParen → Derives equality w → c.kind = .closeParen →
      Derives primary (.group o w c)
  | unary {t : Token} {w} : t.kind ∈ [.not, .dash] → Derives unary w → Derives unary (.unary t w)
  | binary {layer : Layer} {l o x} : Derives layer l → o.kind ∈ layer.operators →
      Derives layer.tighter x → Derives layer (.binary l o x)
  | tighter {layer : Layer} {w} : Derives layer.tighter w → Derives layer w

end Layer

inductive Clause : List Token → Statement → List Token → Prop
  | letBinding {t n a tokens rest} : t.kind = .letWord → n.kind = .identifier →
      a.kind = .assignment → Skipped tokens rest →
      Clause (t :: n :: a :: tokens) (.letBinding t ⟨n, n.text⟩ none) rest
  | returning {t tokens rest} : t.kind = .returnWord → Skipped tokens rest →
      Clause (t :: tokens) (.returning t none) rest
  | terminated {w : Phrase} {e t s tokens rest} : w.tokens = t :: tokens →
      Layer.Derives .equality w → w.Denotes e → w.nesting ≤ 256 → s.kind = .semicolon →
      Clause (w.tokens ++ s :: rest) (.expression t e) rest
  | unterminated {w : Phrase} {e t tokens rest} : w.tokens = t :: tokens →
      Layer.Derives .equality w → w.Denotes e → w.nesting ≤ 256 →
      (∀ u ∈ rest.head?, u.kind ∉ Kind.operators) →
      Clause (w.tokens ++ rest) (.expression t e) rest

inductive Clauses : List Token → List Statement → Prop
  | nil : Clauses [] []
  | cons {tokens s rest ss} : Clause tokens s rest → Clauses rest ss → Clauses tokens (s :: ss)

end ScriptFrontEnd
