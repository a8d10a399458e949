import Mathlib.Data.Nat.Digits.Defs
import ScriptFrontEnd.Tree.Node

namespace ScriptFrontEnd

namespace Numeral

def radix (digits : List Char) : Nat :=
  if 1 < digits.length ∧ digits.head? = some '0' then 8 else 10

def digitValue (c : Char) : Nat :=
  c.toNat - '0'.toNat

structure Denotes (base : Nat) (digits : List Char) (n : Nat) : Prop where
  ne_nil : digits ≠ []
  digit : ∀ c ∈ digits, c.isDigit ∧ digitValue c < base
  positional : Nat.ofDigits base (digits.reverse.map digitValue) = n

end Numeral

def Identifier.WellFormed (n : Identifier) : Prop :=
  n.token.kind = .identifier ∧ n.token.text = n.value ∧ n.value ≠ "" ∧
    (∀ c ∈ n.value.toList, c.isAlpha ∨ c = '_') ∧ n.value ∉ Kind.reserved.map Prod.fst

def Expr.signs : List (Kind × String) :=
  [(.not, "!"), (.dash, "-")]

def Expr.operators : List (Kind × String) :=
  [(.equals, "=="), (.notEquals, "!="), (.less, "<"), (.greater, ">"), (.plus, "+"), (.dash, "-"),
    (.star, "*"), (.slash, "/")]

def Node.WellFormed : Node → Prop
  | program _ => True
  | statement (.letBinding t _ value) => t.kind = .letWord ∧ t.text = "let" ∧ value = none
  | statement (.returning t value) => t.kind = .returnWord ∧ t.text = "return" ∧ value = none
  | statement (.expression _ _) => True
  | name n => n.WellFormed
  | expression (.identifier n) => n.WellFormed
  | expression (.integer t v) => t.kind = .int ∧ 0 ≤ v.toInt ∧ v.toInt < 2 ^ 63 ∧
    Numeral.Denotes (Numeral.radix t.text.toList) t.text.toList v.toInt.toNat
  | expression (.boolean t b) => t.kind = .trueWord ∧ t.text = "true" ∧ b = true ∨
    t.kind = .falseWord ∧ t.text = "false" ∧ b = false
  | expression (.unary t operator _) => operator = t.text ∧ (t.kind, operator) ∈ Expr.signs
  | expression (.binary t _ operator _) => operator = t.text ∧ (t.kind, operator) ∈ Expr.operators

end ScriptFrontEnd
