import ScriptFrontEnd.Tree.Basic

namespace ScriptFrontEnd

namespace Expr

def tokens : Expr → List Token
  | identifier name => [name.token]
  | integer token _ => [token]
  | boolean token _ => [token]
  | unary token _ right => token :: right.tokens
  | binary token left _ right => left.tokens ++ token :: right.tokens

def mapTokens (f : Token → Token) : Expr → Expr
  | identifier name => identifier { name with token := f name.token }
  | integer token value => integer (f token) value
  | boolean token value => boolean (f token) value
  | unary token operator right => unary (f token) operator (right.mapTokens f)
  | binary token left operator right =>
    binary (f token) (left.mapTokens f) operator (right.mapTokens f)

theorem tokens_ne_nil : ∀ e : Expr, e.tokens ≠ []
  | identifier _ => by simp [tokens]
  | integer _ _ => by simp [tokens]
  | boolean _ _ => by simp [tokens]
  | unary _ _ _ => by simp [tokens]
  | binary _ _ _ _ => by simp [tokens]

@[simp] theorem tokens_mapTokens (f : Token → Token) (e : Expr) :
    (e.mapTokens f).tokens = e.tokens.map f := by
  induction e with
  | identifier _ => rfl
  | integer _ _ => rfl
  | boolean _ _ => rfl
  | unary _ _ _ ih => simp [mapTokens, tokens, ih]
  | binary _ _ _ _ ihl ihr => simp [mapTokens, tokens, ihl, ihr]

theorem mapTokens_mapTokens (f g : Token → Token) (e : Expr) :
    (e.mapTokens f).mapTokens g = e.mapTokens (g ∘ f) := by
  induction e with
  | identifier _ => rfl
  | integer _ _ => rfl
  | boolean _ _ => rfl
  | unary _ _ _ ih => simp [mapTokens, ih]
  | binary _ _ _ _ ihl ihr => simp [mapTokens, ihl, ihr]

theorem render_mapTokens {f : Token → Token} (hf : ∀ t, (f t).text = t.text) (e : Expr) :
    (e.mapTokens f).render = e.render := by
  induction e with
  | identifier _ => rfl
  | integer t _ => exact hf t
  | boolean t _ => exact hf t
  | unary _ _ _ ih => simp [mapTokens, render, ih]
  | binary _ _ _ _ ihl ihr => simp [mapTokens, render, ihl, ihr]

end Expr

def Statement.tokens : Statement → List Token
  | letBinding token name value => token :: name.token :: value.elim [] Expr.tokens
  | returning token value => token :: value.elim [] Expr.tokens
  | expression _ expr => expr.tokens

def Identifier.mapToken (f : Token → Token) (n : Identifier) : Identifier :=
  { n with token := f n.token }

def Statement.mapTokens (f : Token → Token) : Statement → Statement
  | letBinding token name value =>
    letBinding (f token) (name.mapToken f) (value.map (Expr.mapTokens f))
  | returning token value => returning (f token) (value.map (Expr.mapTokens f))
  | expression token expr => expression (f token) (expr.mapTokens f)

theorem Statement.mapTokens_mapTokens (f g : Token → Token) (s : Statement) :
    (s.mapTokens f).mapTokens g = s.mapTokens (g ∘ f) := by
  have hvalue (value : Option Expr) :
      (value.map (Expr.mapTokens f)).map (Expr.mapTokens g) =
        value.map (Expr.mapTokens (g ∘ f)) := by
    cases value with
    | none => rfl
    | some e => exact congrArg some (e.mapTokens_mapTokens f g)
  cases s with
  | letBinding t n v => simp only [mapTokens, Identifier.mapToken, hvalue, Function.comp]
  | returning t v => simp only [mapTokens, hvalue, Function.comp]
  | expression t e => simp only [mapTokens, Expr.mapTokens_mapTokens, Function.comp]

theorem Statement.render_mapTokens {f : Token → Token} (hf : ∀ t, (f t).text = t.text)
    (s : Statement) : (s.mapTokens f).render = s.render := by
  have hv (value : Option Expr) :
      renderValue (value.map (Expr.mapTokens f)) = renderValue value := by
    cases value with
    | none => rfl
    | some e => exact Expr.render_mapTokens hf e
  cases s with
  | letBinding t n v => simp [mapTokens, render, Identifier.mapToken, hf, hv]
  | returning t v => simp [mapTokens, render, hf, hv]
  | expression t e => exact Expr.render_mapTokens hf e

def Program.mapTokens (f : Token → Token) (p : Program) : Program :=
  ⟨p.statements.map (Statement.mapTokens f)⟩

theorem Program.render_mapTokens {f : Token → Token} (hf : ∀ t, (f t).text = t.text)
    (p : Program) : (p.mapTokens f).render = p.render := by
  simp only [render, mapTokens, List.map_map]
  exact congrArg String.join (List.map_congr_left fun s _ => s.render_mapTokens hf)

def Token.IsParen (t : Token) : Prop :=
  t.kind = .openParen ∨ t.kind = .closeParen

instance : DecidablePred Token.IsParen := fun _ => inferInstanceAs (Decidable (_ ∨ _))

inductive Balanced : List Token → Prop
  | nil : Balanced []
  | single {t : Token} : ¬ t.IsParen → Balanced [t]
  | append {a b} : Balanced a → Balanced b → Balanced (a ++ b)
  | enclosed {o c : Token} {inner} : o.kind = .openParen → Balanced inner → c.kind = .closeParen →
      Balanced (o :: (inner ++ [c]))

def withoutParens (tokens : List Token) : List Token :=
  tokens.filter fun t => ¬ t.IsParen

/-- The slice from the first token of the statement on to the last one that its tree depends on. -/
inductive Statement.MadeOf : Statement → List Token → Prop
  | letBinding {t n a} : t.kind = .letWord → n.token.kind = .identifier → a.kind = .assignment →
      MadeOf (letBinding t n none) [t, n.token, a]
  | returning {t} : t.kind = .returnWord → MadeOf (returning t none) [t]
  | expression {t e more} : Balanced (t :: more) → withoutParens (t :: more) = e.tokens →
      MadeOf (expression t e) (t :: more)

inductive Yields : List Token → List Statement → Prop
  | nil {tokens} : Yields tokens []
  | cons {gap slice rest s ss} : s.MadeOf slice → Yields rest ss →
      Yields (gap ++ (slice ++ rest)) (s :: ss)

end ScriptFrontEnd
