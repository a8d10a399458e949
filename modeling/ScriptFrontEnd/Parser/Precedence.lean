namespace ScriptFrontEnd

inductive Precedence where
  | lowest | equality | relational | additive | multiplicative | unary | call
  deriving DecidableEq, Repr

namespace Precedence

def all : List Precedence :=
  [lowest, equality, relational, additive, multiplicative, unary, call]

def level : Precedence → Nat
  | lowest => 0
  | equality => 1
  | relational => 2
  | additive => 3
  | multiplicative => 4
  | unary => 5
  | call => 6

instance : LT Precedence := ⟨fun p q => p.level < q.level⟩

instance : LE Precedence := ⟨fun p q => p.level ≤ q.level⟩

instance (p q : Precedence) : Decidable (p < q) :=
  inferInstanceAs (Decidable (p.level < q.level))

instance (p q : Precedence) : Decidable (p ≤ q) :=
  inferInstanceAs (Decidable (p.level ≤ q.level))

theorem not_lt {p q : Precedence} : ¬ p < q ↔ q ≤ p := Nat.not_lt

def name : Precedence → String
  | lowest => "Default"
  | equality => "Equality"
  | relational => "Relational"
  | additive => "Additive"
  | multiplicative => "Multiplicative"
  | unary => "Unary"
  | call => "Call"

def ofName? (s : String) : Option Precedence :=
  all.find? (·.name == s)

theorem ofName?_name (p : Precedence) : ofName? p.name = some p := by
  cases p <;> decide

end Precedence

end ScriptFrontEnd
